import Veryfront.Utils.EnvLoaderLines

/-!
# Two ways for a process to be heard

A name that one of two processes keeps and the other one loads. If objects inherit something under it, a file that refers
to it sets a variable that both report as untainted, to the inherited text or to what the files say. If the host refuses
null characters, a file that gives it one is given up by the process that has to load it.
-/

namespace Veryfront.EnvLoader

open Lib

variable {host : Host} {env env₁ env₂ : ProcessEnv host} {options : EnvDirLoadOptions} {state : LoadState host} {loaded : Loaded}
  {file name probe text cwd : Text} {override : Bool} (hcase : host.caseInsensitive = false)

theorem file_eq_and_value_eq {readTextFile : FileSystem} {loaded₁ loaded₂ : Loaded} {file₁ file₂ value₁ value₂ : Text}
    (hcase : host.caseInsensitive = false) (hagree : UntaintedAgree readTextFile cwd override env₁ env₂) (hname : IsIdentifier name)
    (hshows₁ : Shows (primaryLoad override) env₁ IsIdentifier (primaryState readTextFile cwd override env₁) loaded₁)
    (hshows₂ : Shows (primaryLoad override) env₂ IsIdentifier (primaryState readTextFile cwd override env₂) loaded₂)
    (hloaded₁ : loaded₁ name = some (file₁, ⟨value₁, false⟩)) (hloaded₂ : loaded₂ name = some (file₂, ⟨value₂, false⟩)) :
    file₁ = file₂ ∧ host.storedValue value₁ = host.storedValue value₂ := by
  have hsource₁ := (hshows₁.getEnvSource_loadEnv hcase).mpr ⟨_, hloaded₁⟩
  have hsource₂ := (hshows₂.getEnvSource_loadEnv hcase).mpr ⟨_, hloaded₂⟩
  obtain ⟨hfile, hvalue⟩ := hagree name _ _ hsource₁ hsource₂
  rw [hshows₁.getEnv_loadEnv hloaded₁, hshows₂.getEnv_loadEnv hloaded₂, Host.written, Host.written,
    host.storedName_identifier hcase name hname] at hvalue
  exact ⟨hfile, Option.some.inj hvalue⟩

/-! ## An inherited name -/

def shadowingFiles (cwd name probe : Text) : FileSystem :=
  twoFiles cwd (definitionLine name []) (definitionLine probe (reference name))

theorem shadowingFiles_env (cwd name probe : Text) : shadowingFiles cwd name probe (cwd ++ .of "/.env") = some (definitionLine name []) := twoFiles_env

theorem shadowingFiles_local (cwd name probe : Text) :
    shadowingFiles cwd name probe (cwd ++ .of "/.env.local") = some (definitionLine probe (reference name)) := twoFiles_local

/-- What the reference comes to. -/
def shadowedEntry (options : EnvDirLoadOptions) (env : ProcessEnv host) (name text : Text) : ParsedEnvEntry where
  value := if keepsFromStart options env name then text else []
  marked := false

theorem storedValue_shadowedEntry (hinherited : host.prototype.inherited name = some text) (options : EnvDirLoadOptions)
    (env : ProcessEnv host) : host.storedValue (shadowedEntry options env name text).value = (shadowedEntry options env name text).value := by
  rw [shadowedEntry]
  split
  · exact host.storedValue_inherited name text hinherited
  · exact host.storedValue_nil

theorem keepsFromStart_eq_of_shadowedEntry (hinherited : host.prototype.inherited name = some text)
    (h : host.storedValue (shadowedEntry options env₁ name text).value = host.storedValue (shadowedEntry options env₂ name text).value) :
    keepsFromStart options env₁ name = keepsFromStart options env₂ name := by
  have htext := (host.inherited_text name text hinherited).1
  rw [storedValue_shadowedEntry hinherited, storedValue_shadowedEntry hinherited, shadowedEntry, shadowedEntry] at h
  cases hkeeps₁ : keepsFromStart options env₁ name <;> cases hkeeps₂ : keepsFromStart options env₂ name
  · rfl
  · exact absurd (by simpa [hkeeps₁, hkeeps₂] using h.symm) htext
  · exact absurd (by simpa [hkeeps₁, hkeeps₂] using h) htext
  · rfl

structure ShowsShadowed (options : EnvDirLoadOptions) (env : ProcessEnv host) (name text : Text) (state : LoadState host) (loaded : Loaded) :
    Prop where
  shows : Shows options env IsIdentifier state loaded
  entry : substitute state.env state.loaded name = shadowedEntry options env name text

section Shadowed

variable (hinherited : host.prototype.inherited name = some text)

include hinherited

theorem shadowedEntry_solid (options : EnvDirLoadOptions) (env : ProcessEnv host) :
    0 ∉ (shadowedEntry options env name text).value ∧ 36 ∉ (shadowedEntry options env name text).value := by
  obtain ⟨-, hnull, hdollar⟩ := host.inherited_text name text hinherited
  rw [shadowedEntry]
  split
  · exact ⟨hnull, hdollar⟩
  · exact ⟨List.not_mem_nil, List.not_mem_nil⟩

include hcase

theorem showsShadowed_env (haccessor : host.prototype.accessor name = false) : ∃ loaded,
    ShowsShadowed options env name text (loadFile (shadowingFiles cwd name probe) options (.start env) (cwd ++ .of "/.env")) loaded := by
  have hname := (host.inherited_name name text hinherited).1
  have hshows := shows_start options env (keepsApart_identifier hcase)
  cases hkeeps : keepsFromStart options env name with
  | true =>
    rw [hshows.loadFile_kept hcase (shadowingFiles_env cwd name probe) hname (by decide) haccessor hkeeps]
    refine ⟨_, hshows, ?_⟩
    rw [hshows.substitute_of_kept hcase rfl, hinherited, shadowedEntry, hkeeps]
    rfl
  | false =>
    have hwritten := hshows.loadFile_written hcase (shadowingFiles_env cwd name probe) hname (by decide) haccessor hkeeps (expandVariables_of_none List.not_mem_nil)
      fun _ => List.not_mem_nil
    refine ⟨_, hwritten, ?_⟩
    rw [hwritten.substitute_of_loaded hcase (Function.update_self ..), shadowedEntry, hkeeps]
    rfl

theorem ShowsShadowed.local (h : ShowsShadowed options env name text state loaded) (hprobe : Probe probe)
    (hkeeps : keepsFromStart options env probe = false) : ∃ loaded',
      ShowsShadowed options env name text (loadFile (shadowingFiles cwd name probe) options state (cwd ++ .of "/.env.local")) loaded' ∧
        loaded' probe = some (cwd ++ .of "/.env.local", shadowedEntry options env name text) := by
  have hname := (host.inherited_name name text hinherited).1
  obtain ⟨hnull, hdollar⟩ := shadowedEntry_solid hinherited options env
  have hexpand : expandVariables state.env state.loaded (reference name) = shadowedEntry options env name text := by
    rw [expandVariables_reference hname (h.entry ▸ hdollar), h.entry]
  have hwritten := h.shows.loadFile_written hcase (shadowingFiles_local cwd name probe) hprobe.identifier (isPlain_reference hname)
    hprobe.accessor hkeeps hexpand fun _ => hnull
  have hne : name ≠ probe := by
    rintro rfl
    rw [hprobe.inherited] at hinherited
    cases hinherited
  refine ⟨_, ⟨hwritten, ?_⟩, Function.update_self ..⟩
  rw [← h.entry]
  exact hwritten.substitute_congr hcase h.shows (Function.update_of_ne hne ..) hinherited

theorem shows_shadowingFiles (haccessor : host.prototype.accessor name = false) (hprobe : Probe probe) (override : Bool)
    (hkeeps : keepsFromStart (primaryLoad override) env probe = false) (cwd : Text) : ∃ loaded,
      Shows (primaryLoad override) env IsIdentifier (primaryState (shadowingFiles cwd name probe) cwd override env) loaded ∧
        loaded probe = some (cwd ++ .of "/.env.local", shadowedEntry (primaryLoad override) env name text) := by
  obtain ⟨loaded, hlast, hloaded⟩ := primaryState_twoFiles
    (P := fun state => ∃ loaded, ShowsShadowed (primaryLoad override) env name text state loaded)
    (Q := fun state => ∃ loaded, ShowsShadowed (primaryLoad override) env name text state loaded ∧
      loaded probe = some (cwd ++ .of "/.env.local", shadowedEntry (primaryLoad override) env name text))
    (showsShadowed_env hcase hinherited haccessor)
    (fun _ ⟨_, h⟩ => h.local hcase hinherited hprobe hkeeps) fun _ ⟨loaded, h, _⟩ => ⟨loaded, h⟩
  exact ⟨loaded, hlast.shows, hloaded⟩

end Shadowed

theorem recorded_shadowingFiles (hname : IsIdentifier name) (hprobe : Probe probe) {files : List Text} :
    ∀ content ∈ files.filterMap (shadowingFiles cwd name probe), ∀ definition ∈ recorded content,
      IsIdentifier definition.1 ∧ 0 ∉ definition.2 := by
  intro content hcontent definition hdefinition
  rcases eq_or_eq_of_mem_twoFiles hcontent with rfl | rfl
  · rw [recorded_definitionLine hname (by decide), List.mem_singleton] at hdefinition
    rw [hdefinition]
    exact ⟨hname, List.not_mem_nil⟩
  · rw [recorded_definitionLine hprobe.identifier (isPlain_reference hname), List.mem_singleton] at hdefinition
    rw [hdefinition]
    have hnull := not_mem_of_identifier hname (show isIdentifierUnit 0 = false from rfl)
    exact ⟨hprobe.identifier, by simp [reference, hnull]⟩

include hcase

theorem not_untaintedAgree_of_shadows (hshadows : host.prototype.Shadows name)
    (hne : keepsFromStart (primaryLoad override) env₁ name ≠ keepsFromStart (primaryLoad override) env₂ name) (cwd : Text) :
    ∃ readTextFile, RawWritable host (envFileContents readTextFile cwd env₁) ∧ KeysApart host (envFileContents readTextFile cwd env₁) ∧
      ¬UntaintedAgree readTextFile cwd override env₁ env₂ := by
  obtain ⟨hsome, haccessor⟩ := hshadows
  obtain ⟨text, hinherited⟩ := Option.isSome_iff_exists.mp hsome
  obtain ⟨probe, hprobe, hnot⟩ := exists_probe (env₁.values.keys ++ env₂.values.keys)
  rw [List.mem_append, not_or] at hnot
  obtain ⟨loaded₁, hshows₁, hloaded₁⟩ :=
    shows_shadowingFiles hcase hinherited haccessor hprobe override (hprobe.keepsFromStart hcase hnot.1) cwd
  obtain ⟨loaded₂, hshows₂, hloaded₂⟩ :=
    shows_shadowingFiles hcase hinherited haccessor hprobe override (hprobe.keepsFromStart hcase hnot.2) cwd
  have hrecorded : ∀ content ∈ envFileContents (shadowingFiles cwd name probe) cwd env₁, ∀ definition ∈ recorded content, _ :=
    recorded_shadowingFiles (host.inherited_name name text hinherited).1 hprobe
  refine ⟨shadowingFiles cwd name probe, fun content hcontent definition hdefinition _ => (hrecorded content hcontent definition hdefinition).2,
    keysApart_of_identifiers hcase fun content hcontent definition hdefinition => (hrecorded content hcontent definition hdefinition).1,
    fun hagree => hne ?_⟩
  have hvalue := (file_eq_and_value_eq hcase hagree hprobe.identifier hshows₁ hshows₂ hloaded₁ hloaded₂).2
  exact keepsFromStart_eq_of_shadowedEntry hinherited hvalue

omit hcase

/-! ## A null character -/

/-- Both files set the probe, the last one after it has given the name a null character. -/
def refusedFiles (cwd name probe : Text) : FileSystem :=
  twoFiles cwd (definitionLine probe [49]) (definitionLine name [0] ++ lf :: definitionLine probe [50])

/-- The file that the probe comes from. -/
def refusedSource (options : EnvDirLoadOptions) (env : ProcessEnv host) (cwd name : Text) : Text :=
  cwd ++ if keepsFromStart options env name then .of "/.env.local" else .of "/.env"

theorem keepsFromStart_eq_of_refusedSource (h : refusedSource options env₁ cwd name = refusedSource options env₂ cwd name) :
    keepsFromStart options env₁ name = keepsFromStart options env₂ name := by
  have hfiles : Text.of "/.env.local" ≠ Text.of "/.env" := by decide
  rw [refusedSource, refusedSource] at h
  have hrest := List.append_cancel_left h
  cases hkeeps₁ : keepsFromStart options env₁ name <;> cases hkeeps₂ : keepsFromStart options env₂ name
  · rfl
  · exact absurd (by simpa [hkeeps₁, hkeeps₂] using hrest.symm) hfiles
  · exact absurd (by simpa [hkeeps₁, hkeeps₂] using hrest) hfiles
  · rfl

section Refused

variable (hname : IsIdentifier name) (haccessor : host.prototype.accessor name = false) (hprobe : Probe probe) (hne : probe ≠ name)

include hname haccessor hprobe hne

theorem loadFile_refused_local : loadFile (refusedFiles cwd name probe) options state (cwd ++ .of "/.env.local") =
    loadEntries options (cwd ++ .of "/.env.local") state [(name, ⟨[0], false⟩), (probe, ⟨[50], false⟩)] := by
  have hread : refusedFiles cwd name probe (cwd ++ .of "/.env.local") = _ := twoFiles_local
  have hrecorded : recorded (definitionLine name [0] ++ lf :: definitionLine probe [50]) = [(name, [0]), (probe, [50])] := by
    rw [recorded_cons_definitionLine hname (by decide), recorded_definitionLine hprobe.identifier (by decide)]
  have hnot : probe ∉ ((PlainObject.empty : PlainObject host.prototype ParsedEnvEntry).assign name ⟨[0], false⟩).own.keys := by
    rw [PlainObject.keys_assign_empty haccessor, List.mem_singleton]
    exact hne
  rw [loadFile, hread]
  simp only [parseEnvFile, hrecorded, List.foldl_cons, List.foldl_nil, record,
    expandVariables_of_none (show 36 ∉ [0] by decide), expandVariables_of_none (show 36 ∉ [50] by decide)]
  rw [PlainObject.entries_assign_of_name hprobe.accessor hprobe.arrayIndex hnot, PlainObject.entries_assign_empty haccessor]
  rfl

include hcase

theorem Shows.loadFile_kept_local (h : Shows options env IsIdentifier state loaded) (hkeeps : keepsFromStart options env name = true)
    (hprobeKeeps : keepsFromStart options env probe = false) : ∃ loaded',
      Shows options env IsIdentifier (loadFile (refusedFiles cwd name probe) options state (cwd ++ .of "/.env.local")) loaded' ∧
        loaded' probe = some (cwd ++ .of "/.env.local", ⟨[50], false⟩) := by
  have hrefuses : host.refuses probe (⟨[50], false⟩ : ParsedEnvEntry).value = false := by
    rw [refuses_of_writable fun _ => by decide]
    exact host.refusesName_identifier probe hprobe.identifier
  obtain ⟨state', hload, hshows⟩ := h.loadEntry_written hcase (cwd ++ .of "/.env.local") hprobe.identifier hprobeKeeps hrefuses hprobe.accessor
  rw [loadFile_refused_local hname haccessor hprobe hne, loadEntries, h.loadEntry_kept hcase hname hkeeps]
  simp only [loadEntries, hload]
  exact ⟨_, hshows, Function.update_self ..⟩

theorem Shows.loadFile_refused_local (h : Shows options env IsIdentifier state loaded) (hkeeps : keepsFromStart options env name = false)
    (hnull : host.refusesNull = true) :
    loadFile (refusedFiles cwd name probe) options state (cwd ++ .of "/.env.local") = state := by
  have hrefuses : host.refuses name [0] = true := by simp [Host.refuses, hnull]
  rw [EnvLoader.loadFile_refused_local hname haccessor hprobe hne, loadEntries, h.loadEntry_refused hcase hname hkeeps hrefuses]

theorem shows_refusedFiles (hnull : host.refusesNull = true) (override : Bool)
    (hprobeKeeps : keepsFromStart (primaryLoad override) env probe = false) (cwd : Text) : ∃ value loaded,
      Shows (primaryLoad override) env IsIdentifier (primaryState (refusedFiles cwd name probe) cwd override env) loaded ∧
        loaded probe = some (refusedSource (primaryLoad override) env cwd name, ⟨value, false⟩) := by
  have hread : refusedFiles cwd name probe (cwd ++ .of "/.env") = some (definitionLine probe [49]) := twoFiles_env
  have hbase := (shows_start (primaryLoad override) env (keepsApart_identifier hcase)).loadFile_written hcase hread hprobe.identifier (by decide) hprobe.accessor
    hprobeKeeps (expandVariables_of_none (by decide)) fun _ => by decide
  cases hkeeps : keepsFromStart (primaryLoad override) env name with
  | true =>
    rw [refusedSource, hkeeps]
    exact ⟨[50], primaryState_twoFiles
      (P := fun state => ∃ loaded, Shows (primaryLoad override) env IsIdentifier state loaded)
      (Q := fun state => ∃ loaded, Shows (primaryLoad override) env IsIdentifier state loaded ∧
        loaded probe = some (cwd ++ .of "/.env.local", ⟨[50], false⟩))
      ⟨_, hbase⟩ (fun _ ⟨_, h⟩ => h.loadFile_kept_local hcase hname haccessor hprobe hne hkeeps hprobeKeeps) fun _ ⟨loaded, h, _⟩ => ⟨loaded, h⟩⟩
  | false =>
    rw [refusedSource, hkeeps]
    refine ⟨[49], primaryState_twoFiles
      (P := fun state => ∃ loaded, Shows (primaryLoad override) env IsIdentifier state loaded ∧
        loaded probe = some (cwd ++ .of "/.env", ⟨[49], false⟩))
      ⟨_, hbase, Function.update_self ..⟩ ?_ fun _ h => h⟩
    rintro state ⟨loaded, h, hloaded⟩
    rw [← refusedFiles, h.loadFile_refused_local hcase hname haccessor hprobe hne hkeeps hnull]
    exact ⟨loaded, h, hloaded⟩

end Refused

include hcase

theorem not_untaintedAgree_of_refusesNull (hnull : host.refusesNull = true) (hname : IsIdentifier name)
    (haccessor : host.prototype.accessor name = false)
    (hne : keepsFromStart (primaryLoad override) env₁ name ≠ keepsFromStart (primaryLoad override) env₂ name) (cwd : Text) :
    ∃ readTextFile, KeysApart host (envFileContents readTextFile cwd env₁) ∧ ¬UntaintedAgree readTextFile cwd override env₁ env₂ := by
  obtain ⟨probe, hprobe, hnot⟩ := exists_probe (name :: (env₁.values.keys ++ env₂.values.keys))
  rw [List.mem_cons, List.mem_append, not_or, not_or] at hnot
  obtain ⟨_, _, hshows₁, hloaded₁⟩ := shows_refusedFiles hcase hname haccessor hprobe hnot.1 hnull override
    (hprobe.keepsFromStart hcase hnot.2.1) cwd
  obtain ⟨_, _, hshows₂, hloaded₂⟩ := shows_refusedFiles hcase hname haccessor hprobe hnot.1 hnull override
    (hprobe.keepsFromStart hcase hnot.2.2) cwd
  refine ⟨refusedFiles cwd name probe, keysApart_of_identifiers hcase fun content hcontent definition hdefinition => ?_, fun hagree => hne ?_⟩
  · rcases eq_or_eq_of_mem_twoFiles hcontent with rfl | rfl
    · rw [recorded_definitionLine hprobe.identifier (by decide), List.mem_singleton] at hdefinition
      exact hdefinition ▸ hprobe.identifier
    · rw [recorded_cons_definitionLine hname (by decide), recorded_definitionLine hprobe.identifier (by decide), List.mem_cons,
        List.mem_singleton] at hdefinition
      rcases hdefinition with rfl | rfl
      · exact hname
      · exact hprobe.identifier
  · exact keepsFromStart_eq_of_refusedSource (file_eq_and_value_eq hcase hagree hprobe.identifier hshows₁ hshows₂ hloaded₁ hloaded₂).1

end Veryfront.EnvLoader
