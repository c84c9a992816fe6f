import Veryfront.Utils.EnvLoader

/-!
# What a load comes to

On a host that tells letter cases apart, a load keeps a variable of the process from its start to its end, or else the
last file that defines the variable sets it.
-/

namespace Veryfront.EnvLoader

open Lib

variable {host : Host} {env : ProcessEnv host} {scope : FileVars host} {keys : Text → Prop} {key name : Text}
  {entry : ParsedEnvEntry}

/-! ## Writing -/

/-- No two of the names stand for one variable. -/
def Host.KeepsApart (host : Host) (keys : Text → Prop) : Prop :=
  ∀ name other stored, keys name → keys other → host.storedName name = some stored → host.storedName other = some stored → name = other

def Host.written (host : Host) (name value : Text) : Option Text := (host.storedName name).map fun _ => host.storedValue value

theorem getEnv_setEnv {value : Text} {env' : ProcessEnv host} (h : setEnv env key value = some env') (hkeys : host.KeepsApart keys)
    (hkey : keys key) (hname : keys name) :
    getEnv env' name = if name = key then (host.written key value).or (getEnv env key) else getEnv env name := by
  rw [setEnv] at h
  split at h
  · cases h
  split at h
  · rename_i hstored
    rw [← Option.some.inj h, Host.written, hstored]
    split
    · rename_i heq
      rw [heq]
      rfl
    · rfl
  · rename_i stored hstored
    rw [← Option.some.inj h]
    by_cases heq : name = key
    · simp only [heq, getEnv, Host.written, hstored]
      simp [OrdMap.get?_set]
    · rw [if_neg heq, getEnv, getEnv]
      congr 1
      cases hother : host.storedName name with
      | none => rfl
      | some other =>
        have hne : other ≠ stored := fun hsame => heq (hkeys name key stored hname hkey (hsame ▸ hother) hstored)
        simp [OrdMap.get?_set, hne]

section CaseSensitive

variable (hcase : host.caseInsensitive = false)

include hcase

/-! ## Keys -/

theorem normalizeKey_eq (key : Text) : host.normalizeKey key = key := by
  simp [Host.normalizeKey, hcase]

theorem get?_clearEnvSourceAliases_set (sources : EnvSources) (key : Text) (record : EnvSourceRecord) (name : Text) :
    ((host.clearEnvSourceAliases sources key).set key record).get? name =
      if name = key then some record else sources.get? name := by
  rw [Host.clearEnvSourceAliases, hcase, OrdMap.get?_set]
  split
  · rfl
  · rename_i hname
    simp [hname]

/-! ## References -/

theorem substitute_of_own {value : Text} (h : scope.vars.own.get? name = some value) :
    substitute env scope name = ⟨value, decide (name ∈ scope.tainted)⟩ := by
  simp [substitute, normalizeKey_eq hcase, PlainObject.read, h]

theorem substitute_of_inherited {text : Text} (h : scope.vars.own.get? name = none) (hinherited : host.prototype.inherited name = some text) :
    substitute env scope name = ⟨text, decide (name ∈ scope.tainted)⟩ := by
  simp [substitute, normalizeKey_eq hcase, PlainObject.read, h, hinherited]

theorem substitute_of_missing (h : scope.vars.own.get? name = none) (hinherited : host.prototype.inherited name = none) :
    substitute env scope name = ⟨(getEnv env name).getD [], (getEnv env name).isSome⟩ := by
  simp only [substitute, normalizeKey_eq hcase, PlainObject.read, h, hinherited, Option.or_none]
  cases getEnv env name <;> rfl

theorem substitute_assign_self (h : host.prototype.accessor key = false) (entry : ParsedEnvEntry) :
    substitute env (scope.assign key entry) key = entry := by
  have hown : (scope.assign key entry).vars.own.get? key = some entry.value := by
    rw [FileVars.get?_assign, if_pos ⟨rfl, h⟩]
  rw [substitute_of_own hcase hown, Tracked.ext_iff]
  simp [FileVars.mem_tainted_assign]

theorem substitute_assign_of_ne (h : name ≠ key) (entry : ParsedEnvEntry) :
    substitute env (scope.assign key entry) name = substitute env scope name := by
  have hown : (scope.assign key entry).vars.own.get? name = scope.vars.own.get? name := by
    rw [FileVars.get?_assign, if_neg fun hname => h hname.1]
  have htainted : name ∈ (scope.assign key entry).tainted ↔ name ∈ scope.tainted := by
    rw [FileVars.mem_tainted_assign, if_neg h]
  simp [substitute, normalizeKey_eq hcase, PlainObject.read, hown, htainted]

theorem get?_copy_vars (scope : FileVars host) (name : Text) : scope.copy.vars.own.get? name = scope.vars.own.get? name := by
  simp only [FileVars.copy, normalizeKey_eq hcase]
  exact scope.vars.get?_copy name

theorem substitute_copy (scope : FileVars host) (name : Text) : substitute env scope.copy name = substitute env scope name := by
  have htainted : scope.copy.tainted = scope.tainted := by
    rw [FileVars.copy, show host.normalizeKey = id from funext (normalizeKey_eq hcase), Finset.image_id]
  simp only [substitute, PlainObject.read, get?_copy_vars hcase, htainted]

end CaseSensitive

/-! ## Kept or loaded -/

def keepsFromStart (options : EnvDirLoadOptions) (env : ProcessEnv host) (name : Text) : Bool :=
  keepsExistingValue (getEnv env name) false options

theorem getEnv_of_keeps {options : EnvDirLoadOptions} (h : keepsFromStart options env name = true) :
    ∃ value, getEnv env name = some value := by
  refine Option.ne_none_iff_exists'.mp fun hnone => ?_
  simp [keepsFromStart, keepsExistingValue, hnone] at h

/-- The file that has set each variable, and what it has set it to. -/
abbrev Loaded := Text → Option (Text × ParsedEnvEntry)

/-- The bookkeeping of a load that started from `env`, has loaded these variables and may load the keys. -/
structure Shows (options : EnvDirLoadOptions) (env : ProcessEnv host) (keys : Text → Prop) (state : LoadState host) (loaded : Loaded) :
    Prop where
  apart : host.KeepsApart keys
  set_iff : ∀ name, name ∈ state.keysSetByThisLoad ↔ (loaded name).isSome
  var : ∀ name, state.loaded.vars.own.get? name = (loaded name).map fun found => found.2.value
  tainted_iff : ∀ name, name ∈ state.loaded.tainted ↔ ∃ found, loaded name = some found ∧ found.2.marked = true
  value : ∀ name, keys name → getEnv state.env name = ((loaded name).bind fun found => host.written name found.2.value).or (getEnv env name)
  source : ∀ name, state.envSources.get? name = (loaded name).map fun found => ⟨found.1, .envFile, found.2.marked⟩
  kept : ∀ name, keepsFromStart options env name = true → loaded name = none
  accepted : ∀ name found, loaded name = some found → keys name ∧ host.refuses name found.2.value = false

def LoadState.start (env : ProcessEnv host) : LoadState host where
  env := env
  envSources := .empty

theorem shows_start (options : EnvDirLoadOptions) (env : ProcessEnv host) (hkeys : host.KeepsApart keys) :
    Shows options env keys (.start env) fun _ => none where
  apart := hkeys
  set_iff name := by simp [LoadState.start]
  var name := rfl
  tainted_iff name := by simp [LoadState.start]
  value name _ := rfl
  source name := rfl
  kept name _ := rfl
  accepted _ _ h := nomatch h

variable {options : EnvDirLoadOptions} {state : LoadState host} {loaded : Loaded} {file : Text}

namespace Shows

theorem keeps_iff (h : Shows options env keys state loaded) (hname : keys name) :
    keepsExistingValue (getEnv state.env name) (name ∈ state.keysSetByThisLoad) options = keepsFromStart options env name := by
  cases hloaded : loaded name with
  | none =>
    have hset : name ∉ state.keysSetByThisLoad := by simp [h.set_iff, hloaded]
    have hvalue : getEnv state.env name = getEnv env name := by simp [h.value name hname, hloaded]
    rw [hvalue, decide_eq_false hset]
    rfl
  | some found =>
    have hset : name ∈ state.keysSetByThisLoad := by simp [h.set_iff, hloaded]
    have hkept : keepsFromStart options env name = false := by
      rw [Bool.eq_false_iff]
      intro hkeeps
      rw [h.kept name hkeeps] at hloaded
      cases hloaded
    rw [hkept, decide_eq_true hset]
    simp [keepsExistingValue]

theorem getEnv_of_keeps (h : Shows options env keys state loaded) (hloaded : loaded name = none) (hname : keys name)
    (hkeeps : keepsFromStart options env name = true) : ∃ value, getEnv state.env name = some value := by
  rw [h.value name hname, hloaded]
  exact EnvLoader.getEnv_of_keeps hkeeps

variable (hcase : host.caseInsensitive = false)

include hcase

theorem loadEntry_kept (h : Shows options env keys state loaded) (hkey : keys key) (hkeeps : keepsFromStart options env key = true) :
    loadEntry options file state (key, entry) = some state := by
  simp only [loadEntry, normalizeKey_eq hcase]
  rw [if_pos (by rw [h.keeps_iff hkey]; exact hkeeps)]

theorem loadEntry_refused (h : Shows options env keys state loaded) (hkey : keys key) (hkeeps : keepsFromStart options env key = false)
    (hrefuses : host.refuses key entry.value = true) : loadEntry options file state (key, entry) = none := by
  simp only [loadEntry, normalizeKey_eq hcase]
  rw [if_neg (by rw [h.keeps_iff hkey, hkeeps]; exact Bool.false_ne_true), setEnv, dif_pos hrefuses]
  rfl

theorem loadEntry_written (h : Shows options env keys state loaded) (file : Text) (hkey : keys key) (hkeeps : keepsFromStart options env key = false)
    (hrefuses : host.refuses key entry.value = false) (haccessor : host.prototype.accessor key = false) :
    ∃ state', loadEntry options file state (key, entry) = some state' ∧
      Shows options env keys state' (Function.update loaded key (some (file, entry))) := by
  obtain ⟨env', henv⟩ : ∃ env', setEnv state.env key entry.value = some env' := by
    rw [setEnv, dif_neg (by rw [hrefuses]; exact Bool.false_ne_true)]
    split <;> exact ⟨_, rfl⟩
  refine ⟨state.note file (key, entry) env', ?_, ?_⟩
  · simp only [loadEntry, normalizeKey_eq hcase]
    rw [if_neg (by rw [h.keeps_iff hkey, hkeeps]; exact Bool.false_ne_true), henv]
    rfl
  constructor
  case apart => exact h.apart
  case set_iff =>
    intro name
    by_cases hname : name = key
    · simp [hname, LoadState.note, normalizeKey_eq hcase]
    · simp [hname, LoadState.note, normalizeKey_eq hcase, h.set_iff]
  case var =>
    intro name
    by_cases hname : name = key
    · simp [hname, LoadState.note, normalizeKey_eq hcase, FileVars.get?_assign, haccessor]
    · simp [hname, LoadState.note, normalizeKey_eq hcase, FileVars.get?_assign, h.var]
  case tainted_iff =>
    intro name
    by_cases hname : name = key
    · simp [hname, LoadState.note, normalizeKey_eq hcase, FileVars.mem_tainted_assign]
    · simp [hname, LoadState.note, normalizeKey_eq hcase, FileVars.mem_tainted_assign, h.tainted_iff]
  case value =>
    intro name hname
    rw [LoadState.note, getEnv_setEnv henv h.apart hkey hname]
    by_cases heq : name = key
    · subst heq
      rw [if_pos rfl, h.value name hname, Function.update_self, Option.bind_some, Host.written]
      cases hstored : host.storedName name <;> simp [Host.written, hstored]
    · rw [if_neg heq, Function.update_of_ne heq, h.value name hname]
  case source =>
    intro name
    rw [LoadState.note, get?_clearEnvSourceAliases_set hcase]
    by_cases hname : name = key
    · simp [hname]
    · simp [hname, h.source]
  case kept =>
    intro name hname
    have hne : name ≠ key := by
      rintro rfl
      rw [hkeeps] at hname
      cases hname
    rw [Function.update_of_ne hne]
    exact h.kept name hname
  case accepted =>
    intro name found hfound
    by_cases hname : name = key
    · subst hname
      rw [Function.update_self] at hfound
      exact ⟨hkey, Option.some.inj hfound ▸ hrefuses⟩
    · rw [Function.update_of_ne hname] at hfound
      exact h.accepted name found hfound

theorem substitute_of_loaded (h : Shows options env keys state loaded) {found : Text × ParsedEnvEntry} (hloaded : loaded name = some found) :
    substitute state.env state.loaded name = found.2 := by
  have hown : state.loaded.vars.own.get? name = some found.2.value := by rw [h.var, hloaded]; rfl
  rw [substitute_of_own hcase hown, Tracked.ext_iff]
  refine ⟨rfl, ?_⟩
  simp [h.tainted_iff, hloaded]

theorem substitute_of_kept (h : Shows options env keys state loaded) (hloaded : loaded name = none) :
    substitute state.env state.loaded name =
      match host.prototype.inherited name with
      | some text => ⟨text, false⟩
      | none => ⟨(getEnv state.env name).getD [], (getEnv state.env name).isSome⟩ := by
  have hown : state.loaded.vars.own.get? name = none := by rw [h.var, hloaded]; rfl
  have htainted : name ∉ state.loaded.tainted := by simp [h.tainted_iff, hloaded]
  cases hinherited : host.prototype.inherited name with
  | some text => rw [substitute_of_inherited hcase hown hinherited, decide_eq_false htainted]
  | none => exact substitute_of_missing hcase hown hinherited

end Shows

/-! ## Provenance -/

theorem getEnvSource_eq_envFile (hcase : host.caseInsensitive = false) {loader : Loader host} {expanded : Bool} :
    getEnvSource loader name = .envFile file expanded ↔ loader.envSources.get? name = some ⟨file, .envFile, expanded⟩ := by
  rw [getEnvSource]
  cases hrecord : loader.envSources.get? name with
  | some record =>
    obtain ⟨recordFile, source, recordExpanded⟩ := record
    cases source <;> simp [toFileSource]
  | none =>
    cases hvalue : getEnv loader.env name with
    | none => simp
    | some value => simp [findAliasedEnvSource, hcase]

/-- How `loadEnv` loads. -/
def primaryLoad (override : Bool) : EnvDirLoadOptions where
  override := override
  keepDefined := false

def primaryState (readTextFile : FileSystem) (cwd : Text) (override : Bool) (env : ProcessEnv host) : LoadState host :=
  (envFiles env cwd).foldl (loadFile readTextFile (primaryLoad override)) (.start env)

variable {readTextFile : FileSystem} {cwd : Text} {override : Bool}

theorem Shows.getEnvSource_loadEnv (h : Shows (primaryLoad override) env keys (primaryState readTextFile cwd override env) loaded)
    (hcase : host.caseInsensitive = false) {expanded : Bool} :
    getEnvSource (loadEnv readTextFile cwd override (resetEnvLoader env)) name = .envFile file expanded ↔
      ∃ value, loaded name = some (file, ⟨value, expanded⟩) := by
  rw [getEnvSource_eq_envFile hcase]
  change (primaryState readTextFile cwd override env).envSources.get? name = _ ↔ _
  rw [h.source]
  constructor
  · intro hrecord
    obtain ⟨⟨_, value, _⟩, hloaded, heq⟩ := Option.map_eq_some_iff.mp hrecord
    cases heq
    exact ⟨value, hloaded⟩
  · rintro ⟨value, hloaded⟩
    rw [hloaded]
    rfl

theorem Shows.getEnv_loadEnv (h : Shows (primaryLoad override) env keys (primaryState readTextFile cwd override env) loaded)
    {entry : ParsedEnvEntry} (hloaded : loaded name = some (file, entry)) :
    getEnv (loadEnv readTextFile cwd override (resetEnvLoader env)).env name =
      (host.written name entry.value).or (getEnv env name) := by
  change getEnv (primaryState readTextFile cwd override env).env name = _
  rw [h.value name (h.accepted name _ hloaded).1, hloaded]
  rfl

end Veryfront.EnvLoader
