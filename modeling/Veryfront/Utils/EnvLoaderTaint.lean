import Veryfront.Utils.EnvLoaderRuns

/-!
# Values that the process has no part in

Two processes load the same files side by side. What neither load marks as expanded from its process comes from the same
file and is the same, as long as a reference is not answered by the prototype of an object instead of the process, and
no write is refused.
-/

namespace Veryfront.EnvLoader

open Lib

variable {host : Host} {env env₁ env₂ : ProcessEnv host} {options : EnvDirLoadOptions} {name key raw : Text}

/-! ## Names in a value -/

def bracedNames (raw : Text) : List Text := (bracedReference.parts raw).filterMap Sum.getRight?

def outerNames : List (Text × Text) → List Text
  | [] => []
  | (key, raw) :: definitions => bracedNames raw ++ (outerNames definitions).filter (· ≠ key)

theorem plainReference_name {t rest : Text} (h : plainReference.find t = some (name, rest)) : ∀ unit ∈ name, isNameUnit unit = true := by
  unfold plainReference at h
  simp only at h
  split at h
  · split at h
    · rename_i unit inner hstart
      obtain ⟨rfl, -⟩ := Prod.mk.inj (Option.some.inj h)
      intro other hother
      rcases List.mem_cons.mp hother with rfl | hother
      · simp [isNameUnit, hstart]
      · exact List.all_eq_true.mp List.all_takeWhile other hother
    · cases h
  · cases h

theorem inherited_plainReference {t rest : Text} (h : plainReference.find t = some (name, rest)) :
    host.prototype.inherited name = none := by
  rw [Option.eq_none_iff_forall_ne_some]
  intro text htext
  obtain ⟨unit, hunit, hsmall⟩ := (host.inherited_name name text htext).2
  have hname := plainReference_name h unit hunit
  simp only [isNameUnit, isNameStart, Bool.or_eq_true, Bool.and_eq_true, decide_eq_true_eq] at hname
  omega

theorem expandVariables_agrees {scope₁ scope₂ : FileVars host}
    (h : ∀ name, host.prototype.inherited name = none ∨ name ∈ bracedNames raw →
      (substitute env₁ scope₁ name).Agrees (substitute env₂ scope₂ name)) :
    (expandVariables env₁ scope₁ raw).Agrees (expandVariables env₂ scope₂ raw) := by
  have hbraced : (bracedReference.replaceAll (substitute env₁ scope₁) raw).Agrees
      (bracedReference.replaceAll (substitute env₂ scope₂) raw) :=
    bracedReference.replaceAll_agrees fun name hname => h name (.inr (List.mem_filterMap.mpr ⟨_, hname, rfl⟩))
  refine hbraced.bind fun value => plainReference.replaceAll_agrees fun name hname => ?_
  obtain ⟨t, rest, hfind⟩ := plainReference.find_of_inr_mem_parts hname
  exact h name (.inl (inherited_plainReference hfind))

/-! ## Values that can be written -/

def Host.Writable (host : Host) (value : Text) : Prop := host.refusesNull = true → 0 ∉ value

def FileVars.Writable (scope : FileVars host) : Prop := ∀ name value, scope.vars.own.get? name = some value → host.Writable value

theorem refuses_of_writable {value : Text} (h : host.Writable value) (name : Text) : host.refuses name value = host.refusesName name := by
  rw [Host.refuses]
  cases hnull : host.refusesNull with
  | false => simp
  | true => simp [h hnull]

theorem writable_of_accepted {value : Text} (h : host.refuses name value = false) : host.Writable value := by
  intro hnull hmem
  simp [Host.refuses, hnull, hmem] at h

theorem accepted_getEnv {value : Text} (h : getEnv env name = some value) :
    host.refusesName name = false ∧ host.Writable value := by
  rcases Option.or_eq_some_iff.mp h with hfound | ⟨-, hinherits⟩
  · obtain ⟨stored, hstored, hfound⟩ := Option.bind_eq_some_iff.mp hfound
    have haccepted := env.accepted _ _ hfound
    refine ⟨?_, writable_of_accepted haccepted⟩
    rw [Host.refuses, host.refusesName_storedName name stored hstored, Bool.or_eq_false_iff] at haccepted
    exact haccepted.1
  · split at hinherits
    · exact ⟨host.refusesName_identifier name (host.inherited_name _ _ hinherits).1, fun _ => (host.inherited_text _ _ hinherits).2.1⟩
    · cases hinherits

theorem refusesName_of_keeps (h : keepsFromStart options env name = true) : host.refusesName name = false := by
  obtain ⟨value, hvalue⟩ := getEnv_of_keeps h
  exact (accepted_getEnv hvalue).1

variable {scope : FileVars host}

theorem substitute_writable (h : scope.Writable) (name : Text) :
    host.Writable (substitute env scope name).value := by
  unfold substitute
  simp only [PlainObject.read]
  split
  · rename_i fromFile hread
    rcases Option.or_eq_some_iff.mp hread with hown | ⟨-, hinherited⟩
    · exact h _ _ hown
    · exact fun _ => (host.inherited_text _ _ hinherited).2.1
  · split
    · rename_i fromProcess hprocess
      exact (accepted_getEnv hprocess).2
    · exact fun _ => List.not_mem_nil

theorem expandVariables_writable (h : scope.Writable) (hraw : host.Writable raw) :
    host.Writable (expandVariables env scope raw).value := by
  intro hnull
  have hsubstitute : ∀ name, ∀ unit ∈ (substitute env scope name).value, unit ≠ 0 := by
    rintro name unit hunit rfl
    exact substitute_writable h name hnull hunit
  have hbraced := bracedReference.forall_mem_replaceAll (P := (· ≠ 0)) (t := raw)
    (by rintro unit hunit rfl; exact hraw hnull hunit) hsubstitute
  have hplain := plainReference.forall_mem_replaceAll (P := (· ≠ 0)) hbraced hsubstitute
  exact fun hmem => hplain 0 hmem rfl

/-! ## One file, parsed twice -/

variable {file₁ file₂ : ParsedFile host} {definition : Text × Text} {definitions : List (Text × Text)}

structure ParsedFile.Writable (file : ParsedFile host) : Prop where
  entry : ∀ name entry, file.entries.own.get? name = some entry → host.Writable entry.value
  scope : file.scope.Writable

theorem FileVars.Writable.assign {entry : ParsedEnvEntry} (h : scope.Writable) (hentry : host.Writable entry.value)
    (key : Text) : (scope.assign key entry).Writable := by
  intro name value hvalue
  rw [FileVars.get?_assign] at hvalue
  split at hvalue
  · exact Option.some.inj hvalue ▸ hentry
  · exact h name value hvalue

variable {file : ParsedFile host}

theorem ParsedFile.Writable.record (h : file.Writable) (hraw : host.Writable definition.2) :
    (record env file definition).Writable := by
  have hentry : host.Writable (expandVariables env file.scope definition.2).value := expandVariables_writable h.scope hraw
  refine ⟨fun name entry hget => ?_, h.scope.assign hentry _⟩
  rw [EnvLoader.record, PlainObject.get?_assign] at hget
  split at hget
  · exact Option.some.inj hget ▸ hentry
  · exact h.entry name entry hget

theorem ParsedFile.Writable.foldl (h : file.Writable) (hraw : ∀ definition ∈ definitions, host.Writable definition.2) :
    (definitions.foldl (EnvLoader.record env) file).Writable := by
  induction definitions generalizing file with
  | nil => exact h
  | cons definition definitions ih =>
    exact ih (h.record (hraw definition List.mem_cons_self)) fun other hother => hraw other (List.mem_cons_of_mem _ hother)

/-- Two parsers in the same place of a file, with the definitions that are left. -/
structure ParsedAlike (env₁ env₂ : ProcessEnv host) (file₁ file₂ : ParsedFile host) (definitions : List (Text × Text)) : Prop where
  keys : file₁.entries.own.keys = file₂.entries.own.keys
  entry : ∀ name entry₁ entry₂, file₁.entries.own.get? name = some entry₁ → file₂.entries.own.get? name = some entry₂ →
    entry₁.Agrees entry₂
  scope : ∀ name, host.prototype.inherited name = none ∨ name ∈ outerNames definitions →
    (substitute env₁ file₁.scope name).Agrees (substitute env₂ file₂.scope name)

section CaseSensitive

variable (hcase : host.caseInsensitive = false)

include hcase

theorem assign_agrees {scope₁ scope₂ : FileVars host} {entry₁ entry₂ : ParsedEnvEntry} (hentry : entry₁.Agrees entry₂)
    (h : name ≠ key ∨ host.prototype.inherited name = none → (substitute env₁ scope₁ name).Agrees (substitute env₂ scope₂ name)) :
    (substitute env₁ (scope₁.assign key entry₁) name).Agrees (substitute env₂ (scope₂.assign key entry₂) name) := by
  by_cases hname : name = key
  · subst hname
    cases haccessor : host.prototype.accessor name with
    | false =>
      rw [substitute_assign_self hcase haccessor, substitute_assign_self hcase haccessor]
      exact hentry
    | true =>
      -- The prototype takes the assignment, so that neither object has the property.
      have hown : ∀ scope : FileVars host, scope.vars.own.get? name = none := fun scope => scope.vars.get?_eq_none_of_accessor haccessor
      cases hinherited : host.prototype.inherited name with
      | some text =>
        rw [substitute_of_inherited hcase (hown _) hinherited, substitute_of_inherited hcase (hown _) hinherited]
        exact Tracked.agrees_of_eq rfl
      | none =>
        have hbefore := h (.inr hinherited)
        rw [substitute_of_missing hcase (hown _) hinherited, substitute_of_missing hcase (hown _) hinherited] at hbefore ⊢
        exact hbefore
  · rw [substitute_assign_of_ne hcase hname, substitute_assign_of_ne hcase hname]
    exact h (.inl hname)

theorem ParsedAlike.record (h : ParsedAlike env₁ env₂ file₁ file₂ (definition :: definitions)) :
    ParsedAlike env₁ env₂ (record env₁ file₁ definition) (record env₂ file₂ definition) definitions := by
  obtain ⟨key, raw⟩ := definition
  have hentry : (expandVariables env₁ file₁.scope raw).Agrees (expandVariables env₂ file₂.scope raw) :=
    expandVariables_agrees fun name hname => h.scope name (hname.imp_right fun hmem => List.mem_append_left _ hmem)
  constructor
  case keys =>
    rw [EnvLoader.record, EnvLoader.record, PlainObject.keys_assign, PlainObject.keys_assign, h.keys]
  case entry =>
    intro name entry₁ entry₂ hentry₁ hentry₂
    rw [EnvLoader.record, PlainObject.get?_assign] at hentry₁ hentry₂
    split at hentry₁
    · rename_i hname
      rw [if_pos hname] at hentry₂
      rwa [← Option.some.inj hentry₁, ← Option.some.inj hentry₂]
    · rename_i hname
      rw [if_neg hname] at hentry₂
      exact h.entry name entry₁ entry₂ hentry₁ hentry₂
  case scope =>
    intro name hname
    simp only [EnvLoader.record, normalizeKey_eq hcase]
    refine assign_agrees hcase hentry fun hother => h.scope name ?_
    rcases hname with hname | hname
    · exact .inl hname
    · rcases hother with hne | hinherited
      · exact .inr (List.mem_append_right _ (List.mem_filter.mpr ⟨hname, by simpa using hne⟩))
      · exact .inl hinherited

theorem ParsedAlike.foldl (h : ParsedAlike env₁ env₂ file₁ file₂ definitions) :
    ParsedAlike env₁ env₂ (definitions.foldl (EnvLoader.record env₁) file₁) (definitions.foldl (EnvLoader.record env₂) file₂) [] := by
  induction definitions generalizing file₁ file₂ with
  | nil => exact h
  | cons definition definitions ih => exact ih (h.record hcase)

end CaseSensitive

theorem mem_keys_foldl_record (h : name ∈ (definitions.foldl (record env) file).entries.own.keys) :
    name ∈ file.entries.own.keys ∨ name ∈ definitions.map Prod.fst := by
  induction definitions generalizing file with
  | nil => exact .inl h
  | cons definition definitions ih =>
    rw [List.map_cons, List.mem_cons]
    rcases ih h with hfile | hrest
    · rw [record, PlainObject.keys_assign] at hfile
      split at hfile
      · exact .inl hfile
      · rcases List.mem_append.mp hfile with hfile | hkey
        · exact .inl hfile
        · exact .inr (.inl (List.mem_singleton.mp hkey))
    · exact .inr (.inr hrest)

end Veryfront.EnvLoader
