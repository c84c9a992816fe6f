import Veryfront.Utils.EnvLoaderTaint

/-!
# Two processes that load the same files

At any time either process has loaded a variable from the same file as the other one, or keeps its own value of it. So
the two disagree only on what one of them has marked.
-/

namespace Veryfront.EnvLoader

open Lib

variable {host : Host} {env₁ env₂ : ProcessEnv host} {options : EnvDirLoadOptions} {file name key : Text}
  {state₁ state₂ : LoadState host} {loaded₁ loaded₂ : Loaded} {keys defined : Text → Prop} {entry₁ entry₂ : ParsedEnvEntry}

/-! ## One entry -/

/-- Two loads in the same place. What they have loaded the files so far have defined. -/
structure RunsAlike (options : EnvDirLoadOptions) (env₁ env₂ : ProcessEnv host) (keys defined : Text → Prop)
    (state₁ state₂ : LoadState host) (loaded₁ loaded₂ : Loaded) : Prop where
  shows₁ : Shows options env₁ keys state₁ loaded₁
  shows₂ : Shows options env₂ keys state₂ loaded₂
  both : ∀ name found₁ found₂, loaded₁ name = some found₁ → loaded₂ name = some found₂ →
    found₁.1 = found₂.1 ∧ found₁.2.Agrees found₂.2
  keeps₁ : ∀ name, loaded₁ name = none → (loaded₂ name).isSome → keepsFromStart options env₁ name = true
  keeps₂ : ∀ name, loaded₂ name = none → (loaded₁ name).isSome → keepsFromStart options env₂ name = true
  defined₁ : ∀ name, (loaded₁ name).isSome → defined name
  defined₂ : ∀ name, (loaded₂ name).isSome → defined name

namespace RunsAlike

theorem symm (h : RunsAlike options env₁ env₂ keys defined state₁ state₂ loaded₁ loaded₂) :
    RunsAlike options env₂ env₁ keys defined state₂ state₁ loaded₂ loaded₁ where
  shows₁ := h.shows₂
  shows₂ := h.shows₁
  both name found₂ found₁ h₂ h₁ :=
    have hboth := h.both name found₁ found₂ h₁ h₂
    ⟨hboth.1.symm, hboth.2.symm⟩
  keeps₁ := h.keeps₂
  keeps₂ := h.keeps₁
  defined₁ := h.defined₂
  defined₂ := h.defined₁

theorem mono {defined' : Text → Prop} (h : RunsAlike options env₁ env₂ keys defined state₁ state₂ loaded₁ loaded₂)
    (himp : ∀ name, defined name → defined' name) : RunsAlike options env₁ env₂ keys defined' state₁ state₂ loaded₁ loaded₂ :=
  { h with
    defined₁ := fun name hname => himp name (h.defined₁ name hname)
    defined₂ := fun name hname => himp name (h.defined₂ name hname) }

theorem update_right (h : RunsAlike options env₁ env₂ keys defined state₁ state₂ loaded₁ loaded₂) {found : Text × ParsedEnvEntry}
    {state : LoadState host} (hshows : Shows options env₂ keys state (Function.update loaded₂ key (some found)))
    (hkeeps : keepsFromStart options env₁ key = true) (hdefined : defined key) :
    RunsAlike options env₁ env₂ keys defined state₁ state loaded₁ (Function.update loaded₂ key (some found)) := by
  have hnone := h.shows₁.kept key hkeeps
  refine { h with shows₂ := hshows, both := ?_, keeps₁ := ?_, keeps₂ := ?_, defined₂ := ?_ }
  · intro name found₁ found₂ h₁ h₂
    have hne : name ≠ key := by
      rintro rfl
      rw [hnone] at h₁
      cases h₁
    rw [Function.update_of_ne hne] at h₂
    exact h.both name found₁ found₂ h₁ h₂
  · intro name h₁ h₂
    by_cases hname : name = key
    · exact hname ▸ hkeeps
    · rw [Function.update_of_ne hname] at h₂
      exact h.keeps₁ name h₁ h₂
  · intro name h₂ h₁
    by_cases hname : name = key
    · simp [hname] at h₂
    · rw [Function.update_of_ne hname] at h₂
      exact h.keeps₂ name h₂ h₁
  · intro name h₂
    by_cases hname : name = key
    · exact hname ▸ hdefined
    · rw [Function.update_of_ne hname] at h₂
      exact h.defined₂ name h₂

theorem update_both (h : RunsAlike options env₁ env₂ keys defined state₁ state₂ loaded₁ loaded₂) {state₁' state₂' : LoadState host}
    (hshows₁ : Shows options env₁ keys state₁' (Function.update loaded₁ key (some (file, entry₁))))
    (hshows₂ : Shows options env₂ keys state₂' (Function.update loaded₂ key (some (file, entry₂))))
    (hagrees : entry₁.Agrees entry₂) (hdefined : defined key) :
    RunsAlike options env₁ env₂ keys defined state₁' state₂' (Function.update loaded₁ key (some (file, entry₁)))
      (Function.update loaded₂ key (some (file, entry₂))) := by
  refine ⟨hshows₁, hshows₂, ?_, ?_, ?_, ?_, ?_⟩
  · intro name found₁ found₂ h₁ h₂
    by_cases hname : name = key
    · subst hname
      rw [Function.update_self] at h₁ h₂
      rw [← Option.some.inj h₁, ← Option.some.inj h₂]
      exact ⟨rfl, hagrees⟩
    · rw [Function.update_of_ne hname] at h₁ h₂
      exact h.both name found₁ found₂ h₁ h₂
  · intro name h₁ h₂
    by_cases hname : name = key
    · simp [hname] at h₁
    · rw [Function.update_of_ne hname] at h₁ h₂
      exact h.keeps₁ name h₁ h₂
  · intro name h₂ h₁
    by_cases hname : name = key
    · simp [hname] at h₂
    · rw [Function.update_of_ne hname] at h₁ h₂
      exact h.keeps₂ name h₂ h₁
  · intro name h₁
    by_cases hname : name = key
    · exact hname ▸ hdefined
    · rw [Function.update_of_ne hname] at h₁
      exact h.defined₁ name h₁
  · intro name h₂
    by_cases hname : name = key
    · exact hname ▸ hdefined
    · rw [Function.update_of_ne hname] at h₂
      exact h.defined₂ name h₂

/-- What the entries of one key have to share. -/
structure Loadable (host : Host) (entry₁ entry₂ : ParsedEnvEntry) : Prop where
  agrees : entry₁.Agrees entry₂
  writable₁ : host.Writable entry₁.value
  writable₂ : host.Writable entry₂.value

variable (hcase : host.caseInsensitive = false)

include hcase

theorem loadEntry_right (h : RunsAlike options env₁ env₂ keys defined state₁ state₂ loaded₁ loaded₂) (hentries : Loadable host entry₁ entry₂)
    (haccessor : host.prototype.accessor key = false) (hkey : keys key) (hdefined : defined key)
    (hkeeps₁ : keepsFromStart options env₁ key = true) (hkeeps₂ : keepsFromStart options env₂ key = false) :
    ∃ state₂' loaded₂', loadEntry options file state₁ (key, entry₁) = some state₁ ∧
      loadEntry options file state₂ (key, entry₂) = some state₂' ∧
      RunsAlike options env₁ env₂ keys defined state₁ state₂' loaded₁ loaded₂' := by
  have hrefuses : host.refuses key entry₂.value = false := by
    rw [refuses_of_writable hentries.writable₂]
    exact refusesName_of_keeps hkeeps₁
  obtain ⟨state₂', hload, hshows⟩ := h.shows₂.loadEntry_written hcase file hkey hkeeps₂ hrefuses haccessor
  exact ⟨state₂', _, h.shows₁.loadEntry_kept hcase hkey hkeeps₁, hload, h.update_right hshows hkeeps₁ hdefined⟩

theorem loadEntry (h : RunsAlike options env₁ env₂ keys defined state₁ state₂ loaded₁ loaded₂) (file : Text) (hentries : Loadable host entry₁ entry₂)
    (haccessor : host.prototype.accessor key = false) (hkey : keys key) (hdefined : defined key) :
    (loadEntry options file state₁ (key, entry₁) = none ∧ loadEntry options file state₂ (key, entry₂) = none) ∨
      ∃ state₁' state₂' loaded₁' loaded₂', loadEntry options file state₁ (key, entry₁) = some state₁' ∧
        loadEntry options file state₂ (key, entry₂) = some state₂' ∧
        RunsAlike options env₁ env₂ keys defined state₁' state₂' loaded₁' loaded₂' := by
  cases hkeeps₁ : keepsFromStart options env₁ key with
  | true =>
    cases hkeeps₂ : keepsFromStart options env₂ key with
    | true =>
      exact .inr ⟨state₁, state₂, loaded₁, loaded₂, h.shows₁.loadEntry_kept hcase hkey hkeeps₁, h.shows₂.loadEntry_kept hcase hkey hkeeps₂, h⟩
    | false =>
      obtain ⟨state₂', loaded₂', hload₁, hload₂, hruns⟩ := h.loadEntry_right hcase hentries haccessor hkey hdefined hkeeps₁ hkeeps₂
      exact .inr ⟨state₁, state₂', loaded₁, loaded₂', hload₁, hload₂, hruns⟩
  | false =>
    cases hkeeps₂ : keepsFromStart options env₂ key with
    | true =>
      have hentries' : Loadable host entry₂ entry₁ := ⟨hentries.agrees.symm, hentries.writable₂, hentries.writable₁⟩
      obtain ⟨state₁', loaded₁', hload₂, hload₁, hruns⟩ := h.symm.loadEntry_right hcase hentries' haccessor hkey hdefined hkeeps₂ hkeeps₁
      exact .inr ⟨state₁', state₂, loaded₁', loaded₂, hload₁, hload₂, hruns.symm⟩
    | false =>
      have hrefuses₁ := refuses_of_writable hentries.writable₁ key
      have hrefuses₂ := refuses_of_writable hentries.writable₂ key
      cases hname : host.refusesName key with
      | true =>
        rw [hname] at hrefuses₁ hrefuses₂
        exact .inl ⟨h.shows₁.loadEntry_refused hcase hkey hkeeps₁ hrefuses₁, h.shows₂.loadEntry_refused hcase hkey hkeeps₂ hrefuses₂⟩
      | false =>
        rw [hname] at hrefuses₁ hrefuses₂
        obtain ⟨state₁', hload₁, hshows₁⟩ := h.shows₁.loadEntry_written hcase file hkey hkeeps₁ hrefuses₁ haccessor
        obtain ⟨state₂', hload₂, hshows₂⟩ := h.shows₂.loadEntry_written hcase file hkey hkeeps₂ hrefuses₂ haccessor
        exact .inr ⟨state₁', state₂', _, _, hload₁, hload₂, h.update_both hshows₁ hshows₂ hentries.agrees hdefined⟩

/-! ## One file -/

theorem loadEntries (h : RunsAlike options env₁ env₂ keys defined state₁ state₂ loaded₁ loaded₂) {entries₁ entries₂ : List (Text × ParsedEnvEntry)}
    (hentries : List.Forall₂ (fun entry₁ entry₂ => entry₁.1 = entry₂.1 ∧ Loadable host entry₁.2 entry₂.2) entries₁ entries₂)
    (hkeys : ∀ entry ∈ entries₁, host.prototype.accessor entry.1 = false ∧ keys entry.1 ∧ defined entry.1) :
    ∃ loaded₁' loaded₂', RunsAlike options env₁ env₂ keys defined (loadEntries options file state₁ entries₁)
      (loadEntries options file state₂ entries₂) loaded₁' loaded₂' := by
  induction hentries generalizing state₁ state₂ loaded₁ loaded₂ with
  | nil => exact ⟨loaded₁, loaded₂, h⟩
  | @cons entry₁ entry₂ entries₁ entries₂ hentry _ ih =>
    obtain ⟨key, entry₁⟩ := entry₁
    obtain ⟨key', entry₂⟩ := entry₂
    obtain ⟨rfl, hentry⟩ := hentry
    obtain ⟨haccessor, hkey, hdefined⟩ := hkeys _ List.mem_cons_self
    rw [EnvLoader.loadEntries, EnvLoader.loadEntries]
    rcases h.loadEntry hcase file hentry haccessor hkey hdefined with
      ⟨hnone₁, hnone₂⟩ | ⟨state₁', state₂', loaded₁', loaded₂', hsome₁, hsome₂, hruns⟩
    · rw [hnone₁, hnone₂]
      exact ⟨loaded₁, loaded₂, h⟩
    · rw [hsome₁, hsome₂]
      exact ih hruns fun entry hmem => hkeys entry (List.mem_cons_of_mem _ hmem)

theorem substitute_agrees (h : RunsAlike options env₁ env₂ keys defined state₁ state₂ loaded₁ loaded₂)
    (hname : host.prototype.inherited name = none ∨ (loaded₁ name).isSome = (loaded₂ name).isSome) :
    (substitute state₁.env state₁.loaded name).Agrees (substitute state₂.env state₂.loaded name) := by
  cases hloaded₁ : loaded₁ name with
  | some found₁ =>
    cases hloaded₂ : loaded₂ name with
    | some found₂ =>
      rw [h.shows₁.substitute_of_loaded hcase hloaded₁, h.shows₂.substitute_of_loaded hcase hloaded₂]
      exact (h.both name found₁ found₂ hloaded₁ hloaded₂).2
    | none =>
      have hinherited := hname.resolve_right (by simp [hloaded₁, hloaded₂])
      obtain ⟨value, hvalue⟩ := h.shows₂.getEnv_of_keeps hloaded₂ (h.shows₁.accepted name found₁ hloaded₁).1
        (h.keeps₂ name hloaded₂ (by simp [hloaded₁]))
      rw [h.shows₂.substitute_of_kept hcase hloaded₂, hinherited, hvalue]
      exact Tracked.agrees_of_marked (.inr rfl)
  | none =>
    cases hloaded₂ : loaded₂ name with
    | some found₂ =>
      have hinherited := hname.resolve_right (by simp [hloaded₁, hloaded₂])
      obtain ⟨value, hvalue⟩ := h.shows₁.getEnv_of_keeps hloaded₁ (h.shows₂.accepted name found₂ hloaded₂).1
        (h.keeps₁ name hloaded₁ (by simp [hloaded₂]))
      rw [h.shows₁.substitute_of_kept hcase hloaded₁, hinherited, hvalue]
      exact Tracked.agrees_of_marked (.inl rfl)
    | none =>
      rw [h.shows₁.substitute_of_kept hcase hloaded₁, h.shows₂.substitute_of_kept hcase hloaded₂]
      cases host.prototype.inherited name with
      | some text => exact Tracked.agrees_of_eq rfl
      | none =>
        intro hmarked₁ hmarked₂
        simp only [Option.isSome_eq_false_iff, Option.isNone_iff_eq_none] at hmarked₁ hmarked₂
        simp [hmarked₁, hmarked₂]

end RunsAlike

/-! ## All files -/

def DefinedIn (contents : List Text) (name : Text) : Prop := ∃ content ∈ contents, name ∈ (recorded content).map Prod.fst

/-- An inherited name is kept by both processes or by none, if a file refers to it and an earlier file defines it. -/
def KeptAlike (options : EnvDirLoadOptions) (env₁ env₂ : ProcessEnv host) (contents : List Text) : Prop :=
  ∀ earlier content later, contents = earlier ++ content :: later →
    ∀ name, host.prototype.Shadows name → DefinedIn earlier name → name ∈ outerNames (recorded content) →
      keepsFromStart options env₁ name = keepsFromStart options env₂ name

def RawWritable (host : Host) (contents : List Text) : Prop :=
  ∀ content ∈ contents, ∀ definition ∈ recorded content, host.Writable definition.2

/-- No two keys of the files stand for one variable. -/
def KeysApart (host : Host) (contents : List Text) : Prop := host.KeepsApart (DefinedIn contents)

variable (hcase : host.caseInsensitive = false) {readTextFile : FileSystem} {earlier : List Text} {content : Text}

include hcase

theorem Shows.writable {env : ProcessEnv host} {state : LoadState host} {loaded : Loaded} (h : Shows options env keys state loaded) :
    state.loaded.copy.Writable := by
  intro name value hvalue
  rw [get?_copy_vars hcase, h.var] at hvalue
  obtain ⟨found, hfound, rfl⟩ := Option.map_eq_some_iff.mp hvalue
  exact writable_of_accepted (h.accepted name found hfound).2

namespace RunsAlike

theorem parsedAlike (h : RunsAlike options env₁ env₂ keys (DefinedIn earlier) state₁ state₂ loaded₁ loaded₂)
    (hkept : ∀ name, host.prototype.Shadows name → DefinedIn earlier name → name ∈ outerNames (recorded content) →
      keepsFromStart options env₁ name = keepsFromStart options env₂ name) :
    ParsedAlike state₁.env state₂.env ⟨.empty, state₁.loaded.copy⟩ ⟨.empty, state₂.loaded.copy⟩ (recorded content) where
  keys := rfl
  entry name entry₁ entry₂ hentry₁ _ := nomatch hentry₁
  scope := by
    intro name hname
    rw [substitute_copy hcase, substitute_copy hcase]
    refine h.substitute_agrees hcase (Classical.or_iff_not_imp_left.mpr fun hinherited => ?_)
    have houter := hname.resolve_left hinherited
    -- A variable that only one process has loaded is kept by the other one, and this one does not keep it.
    have hshadows : ∀ {env : ProcessEnv host} {state loaded}, Shows options env keys state loaded → (loaded name).isSome →
        host.prototype.Shadows name ∧ keepsFromStart options env name = false := by
      intro env state loaded hshows hsome
      obtain ⟨found, hfound⟩ := Option.isSome_iff_exists.mp hsome
      have hown : state.loaded.vars.own.get? name = some found.2.value := by rw [hshows.var, hfound]; rfl
      refine ⟨⟨Option.isSome_iff_ne_none.mpr hinherited, PlainObject.accessor_eq_false _ hown⟩, ?_⟩
      rw [Bool.eq_false_iff]
      intro hkeeps
      rw [hshows.kept name hkeeps] at hfound
      cases hfound
    rw [Bool.eq_iff_iff]
    constructor
    · intro hsome
      by_contra hnone
      obtain ⟨hshadow, hkeeps⟩ := hshadows h.shows₁ hsome
      have hother := h.keeps₂ name (Option.not_isSome_iff_eq_none.mp hnone) hsome
      rw [← hkept name hshadow (h.defined₁ name hsome) houter, hkeeps] at hother
      cases hother
    · intro hsome
      by_contra hnone
      obtain ⟨hshadow, hkeeps⟩ := hshadows h.shows₂ hsome
      have hother := h.keeps₁ name (Option.not_isSome_iff_eq_none.mp hnone) hsome
      rw [hkept name hshadow (h.defined₂ name hsome) houter, hkeeps] at hother
      cases hother

theorem loadFile (h : RunsAlike options env₁ env₂ keys (DefinedIn earlier) state₁ state₂ loaded₁ loaded₂) (hread : readTextFile file = some content)
    (hkeys : ∀ name ∈ (recorded content).map Prod.fst, keys name) (hraw : ∀ definition ∈ recorded content, host.Writable definition.2)
    (hkept : ∀ name, host.prototype.Shadows name → DefinedIn earlier name → name ∈ outerNames (recorded content) →
      keepsFromStart options env₁ name = keepsFromStart options env₂ name) :
    ∃ loaded₁' loaded₂', RunsAlike options env₁ env₂ keys (DefinedIn (earlier ++ [content])) (loadFile readTextFile options state₁ file)
      (loadFile readTextFile options state₂ file) loaded₁' loaded₂' := by
  have hparsed := (h.parsedAlike hcase hkept).foldl hcase
  have hwritable : ∀ {env : ProcessEnv host} {state loaded}, Shows options env keys state loaded →
      ((recorded content).foldl (record state.env) ⟨.empty, state.loaded.copy⟩).Writable := by
    intro env state loaded hshows
    exact ParsedFile.Writable.foldl ⟨nofun, hshows.writable hcase⟩ hraw
  have hentries := PlainObject.entries_forall₂ (R := Loadable host) hparsed.keys fun name entry₁ entry₂ hentry₁ hentry₂ =>
    ⟨hparsed.entry name entry₁ entry₂ hentry₁ hentry₂, (hwritable h.shows₁).entry name entry₁ hentry₁,
      (hwritable h.shows₂).entry name entry₂ hentry₂⟩
  have hdefined : RunsAlike options env₁ env₂ keys (DefinedIn (earlier ++ [content])) state₁ state₂ loaded₁ loaded₂ :=
    h.mono fun name ⟨other, hother, hname⟩ => ⟨other, List.mem_append_left _ hother, hname⟩
  rw [EnvLoader.loadFile, EnvLoader.loadFile, hread]
  refine hdefined.loadEntries hcase hentries fun entry hentry => ?_
  have hget := PlainObject.mem_entries.mp hentry
  have hentry : entry.1 ∈ (parseEnvFile state₁.env content state₁.loaded).own.keys := by
    by_contra hnot
    rw [(OrdMap.get?_eq_none _ _).mpr hnot] at hget
    cases hget
  have hrecorded := (mem_keys_foldl_record hentry).resolve_left nofun
  exact ⟨PlainObject.accessor_eq_false _ hget, hkeys _ hrecorded, content, List.mem_append_right _ List.mem_cons_self, hrecorded⟩

theorem loadFiles {files : List Text} (h : RunsAlike options env₁ env₂ keys (DefinedIn earlier) state₁ state₂ loaded₁ loaded₂)
    (hkeys : ∀ name, DefinedIn (files.filterMap readTextFile) name → keys name) (hraw : RawWritable host (files.filterMap readTextFile))
    (hkept : KeptAlike options env₁ env₂ (earlier ++ files.filterMap readTextFile)) :
    ∃ defined loaded₁' loaded₂', RunsAlike options env₁ env₂ keys defined (files.foldl (EnvLoader.loadFile readTextFile options) state₁)
      (files.foldl (EnvLoader.loadFile readTextFile options) state₂) loaded₁' loaded₂' := by
  induction files generalizing earlier state₁ state₂ loaded₁ loaded₂ with
  | nil => exact ⟨_, loaded₁, loaded₂, h⟩
  | cons file files ih =>
    cases hread : readTextFile file with
    | none =>
      rw [List.filterMap_cons_none hread] at hkeys hraw hkept
      rw [List.foldl_cons, List.foldl_cons, EnvLoader.loadFile, EnvLoader.loadFile, hread]
      exact ih h hkeys hraw hkept
    | some content =>
      rw [List.filterMap_cons_some hread] at hkeys hraw hkept
      obtain ⟨loaded₁', loaded₂', hruns⟩ := h.loadFile hcase hread (fun name hname => hkeys name ⟨content, List.mem_cons_self, hname⟩) (hraw content List.mem_cons_self) (hkept earlier content _ rfl)
      rw [List.append_cons] at hkept
      exact ih hruns (fun name ⟨other, hother, hname⟩ => hkeys name ⟨other, List.mem_cons_of_mem _ hother, hname⟩)
        (fun other hother => hraw other (List.mem_cons_of_mem _ hother)) hkept

end RunsAlike

/-! ## After the load -/

def UntaintedAgree (readTextFile : FileSystem) (cwd : Text) (override : Bool) (env₁ env₂ : ProcessEnv host) : Prop :=
  ∀ name file₁ file₂,
    getEnvSource (loadEnv readTextFile cwd override (resetEnvLoader env₁)) name = .envFile file₁ false →
    getEnvSource (loadEnv readTextFile cwd override (resetEnvLoader env₂)) name = .envFile file₂ false →
    file₁ = file₂ ∧ getEnv (loadEnv readTextFile cwd override (resetEnvLoader env₁)).env name =
      getEnv (loadEnv readTextFile cwd override (resetEnvLoader env₂)).env name

def envFileContents (readTextFile : FileSystem) (cwd : Text) (env : ProcessEnv host) : List Text :=
  (envFiles env cwd).filterMap readTextFile

omit hcase in
theorem envFiles_eq (hnode : getEnv env₁ (.of "NODE_ENV") = getEnv env₂ (.of "NODE_ENV"))
    (hdeno : getEnv env₁ (.of "DENO_ENV") = getEnv env₂ (.of "DENO_ENV")) (cwd : Text) : envFiles env₁ cwd = envFiles env₂ cwd := by
  rw [envFiles, envFiles, envMode, envMode, hnode, hdeno]

omit hcase in
theorem runsAlike_start (options : EnvDirLoadOptions) (env₁ env₂ : ProcessEnv host) (hkeys : host.KeepsApart keys) (defined : Text → Prop) :
    RunsAlike options env₁ env₂ keys defined (.start env₁) (.start env₂) (fun _ => none) fun _ => none where
  shows₁ := shows_start options env₁ hkeys
  shows₂ := shows_start options env₂ hkeys
  both _ _ _ h _ := nomatch h
  keeps₁ _ _ h := nomatch h
  keeps₂ _ _ h := nomatch h
  defined₁ _ h := nomatch h
  defined₂ _ h := nomatch h

theorem untaintedAgree_of_keptAlike {cwd : Text} {override : Bool} (hfiles : envFiles env₁ cwd = envFiles env₂ cwd)
    (hraw : RawWritable host (envFileContents readTextFile cwd env₁)) (hapart : KeysApart host (envFileContents readTextFile cwd env₁))
    (hkept : KeptAlike (primaryLoad override) env₁ env₂ (envFileContents readTextFile cwd env₁)) :
    UntaintedAgree readTextFile cwd override env₁ env₂ := by
  obtain ⟨_, loaded₁, loaded₂, hruns⟩ :=
    (runsAlike_start (primaryLoad override) env₁ env₂ hapart (DefinedIn [])).loadFiles hcase (fun _ hname => hname) hraw hkept
  have hshows₁ : Shows (primaryLoad override) env₁ (DefinedIn (envFileContents readTextFile cwd env₁))
      (primaryState readTextFile cwd override env₁) loaded₁ := hruns.shows₁
  have hshows₂ : Shows (primaryLoad override) env₂ (DefinedIn (envFileContents readTextFile cwd env₁))
      (primaryState readTextFile cwd override env₂) loaded₂ := by
    rw [primaryState, ← hfiles]
    exact hruns.shows₂
  intro name file₁ file₂ hsource₁ hsource₂
  obtain ⟨value₁, hloaded₁⟩ := (hshows₁.getEnvSource_loadEnv hcase).mp hsource₁
  obtain ⟨value₂, hloaded₂⟩ := (hshows₂.getEnvSource_loadEnv hcase).mp hsource₂
  obtain ⟨hfile, hagrees⟩ := hruns.both name _ _ hloaded₁ hloaded₂
  obtain rfl : value₁ = value₂ := hagrees rfl rfl
  refine ⟨hfile, ?_⟩
  rw [hshows₁.getEnv_loadEnv hloaded₁, hshows₂.getEnv_loadEnv hloaded₂, Host.written]
  cases hstored : host.storedName name with
  | some stored => rfl
  | none => simp [getEnv, hstored]

end Veryfront.EnvLoader
