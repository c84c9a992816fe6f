import Mathlib.Data.Finset.Image
import Veryfront.Lib.Capture
import Veryfront.Utils.PlainObject

/-!
# Loading env files

The files `.env`, `.env.<mode>` and `.env.local` of a directory set variables of the process. A value may refer to other
variables, and where it came from is recorded.
-/

namespace Veryfront.EnvLoader

open Lib

/-! ## The host -/

/-- Letters, digits and the underscore. -/
def isIdentifierUnit (unit : Nat) : Bool :=
  (48 ≤ unit && unit ≤ 57) || (65 ≤ unit && unit ≤ 90) || unit = 95 || (97 ≤ unit && unit ≤ 122)

def IsIdentifier (name : Text) : Prop := name ≠ [] ∧ ∀ unit ∈ name, isIdentifierUnit unit = true

instance (name : Text) : Decidable (IsIdentifier name) := inferInstanceAs (Decidable (_ ∧ _))

/-- Some letter is small. What objects inherit has such names. -/
def HasSmallLetter (name : Text) : Prop := ∃ unit ∈ name, 97 ≤ unit ∧ unit ≤ 122

instance (name : Text) : Decidable (HasSmallLetter name) := inferInstanceAs (Decidable (∃ unit ∈ name, _))

/-- The runtime with its process. It refuses to write a variable of some names, or a null character if it does so at all.
What it writes it may cut short. -/
structure Host where
  caseInsensitive : Bool
  toLowerCase : Text → Text
  /-- The name that a variable is kept under. `none` for a name that no variable has, where a write does nothing. -/
  storedName : Text → Option Text
  storedName_identifier : caseInsensitive = false → ∀ name, IsIdentifier name → storedName name = some name
  storedValue : Text → Text
  storedValue_nil : storedValue [] = []
  storedValue_null : ∀ value, 0 ∈ storedValue value → 0 ∈ value
  prototype : Prototype
  /-- Whether the environment is an object that inherits as any other does. -/
  envInherits : Bool
  inherited_name : ∀ name text, prototype.inherited name = some text →
    IsIdentifier name ∧ HasSmallLetter name
  inherited_text : ∀ name text, prototype.inherited name = some text → text ≠ [] ∧ 0 ∉ text ∧ 36 ∉ text
  storedValue_inherited : ∀ name text, prototype.inherited name = some text → storedValue text = text
  inherited_accessor : ∀ name, prototype.accessor name = true → (prototype.inherited name).isSome
  refusesName : Text → Bool
  refusesName_storedName : ∀ name stored, storedName name = some stored → refusesName stored = refusesName name
  refusesName_identifier : ∀ name, IsIdentifier name → refusesName name = false
  refusesNull : Bool

variable {host : Host}

def Host.refuses (host : Host) (name value : Text) : Bool := host.refusesName name || (host.refusesNull && decide (0 ∈ value))

structure ProcessEnv (host : Host) where
  values : OrdMap Text Text
  accepted : ∀ name value, values.get? name = some value → host.refuses name value = false

def getEnv (env : ProcessEnv host) (key : Text) : Option Text :=
  ((host.storedName key).bind env.values.get?).or (if host.envInherits then host.prototype.inherited key else none)

theorem Host.refuses_stored {key stored value : Text} (hstored : host.storedName key = some stored)
    (h : host.refuses key value = false) : host.refuses stored (host.storedValue value) = false := by
  simp only [refuses, Bool.or_eq_false_iff, Bool.and_eq_false_iff, decide_eq_false_iff_not] at h ⊢
  exact ⟨host.refusesName_storedName key stored hstored ▸ h.1, h.2.imp_right fun hnull hstoredNull => hnull (host.storedValue_null value hstoredNull)⟩

/-- `none` where it throws. -/
def setEnv (env : ProcessEnv host) (key value : Text) : Option (ProcessEnv host) :=
  if h : host.refuses key value then none
  else
    match hstored : host.storedName key with
    | none => some env
    | some stored =>
      some
        { values := env.values.set stored (host.storedValue value)
          accepted := by
            intro name found hfound
            rw [OrdMap.get?_set] at hfound
            split at hfound
            · rename_i hname
              rw [hname, ← Option.some.inj hfound]
              exact Host.refuses_stored hstored (Bool.eq_false_iff.mpr h)
            · exact env.accepted name found hfound }

/-! ## Lines -/

def equals : Nat := 61

def isQuote (unit : Nat) : Bool := unit = 34 || unit = 39

/-- Between definitions, or inside a quoted value that goes on over lines. -/
inductive EnvParserState
  | between
  | multiline (currentKey currentValue : Text) (quoteChar : Nat)

/-- What stands before the first white space that a number sign follows. -/
def beforeComment : Text → Option Text
  | [] => none
  | unit :: rest => if unit ∈ Text.whiteSpace ∧ rest.head? = some 35 then some [] else (beforeComment rest).map (unit :: ·)

def parseEnvLine (originalLine : Text) : EnvParserState → EnvParserState × Option (Text × Text)
  | .multiline currentKey currentValue quoteChar =>
    match splitAtFirst [quoteChar] originalLine with
    | none => (.multiline currentKey (currentValue ++ lf :: originalLine) quoteChar, none)
    | some (before, _) => (.between, some (currentKey, currentValue ++ lf :: before))
  | .between =>
    let line := originalLine.trim
    if line = [] ∨ line.startsWith "#" ∨ line.startsWith "//" then (.between, none)
    else
      match splitAtFirst [equals] line with
      | none => (.between, none)
      | some (before, after) =>
        let key := before.trim
        match after.trim with
        | [] => (.between, some (key, []))
        | unit :: rest =>
          if isQuote unit then
            match splitAtFirst [unit] rest with
            | some (value, _) => (.between, some (key, value))
            | none => (.multiline key rest unit, none)
          else
            match beforeComment (unit :: rest) with
            | some value => (.between, some (key, value.trim))
            | none => (.between, some (key, unit :: rest))

def recordedLines : EnvParserState → List Text → List (Text × Text)
  | _, [] => []
  | state, line :: lines => (parseEnvLine line state).2.toList ++ recordedLines (parseEnvLine line state).1 lines

def recorded (content : Text) : List (Text × Text) := recordedLines .between (content.splitOn lf)

/-! ## References -/

def dollar : Nat := 36

def isNameStart (unit : Nat) : Bool := (65 ≤ unit && unit ≤ 90) || unit = 95

def isNameUnit (unit : Nat) : Bool := isNameStart unit || (48 ≤ unit && unit ≤ 57)

/-- `/\$\{([^}]+)\}/g` -/
def bracedReference : Capture Nat Text where
  find
    | 36 :: 123 :: rest =>
      match splitAtFirst [125] rest with
      | some (name, after) => if name ≠ [] then some (name, after) else none
      | none => none
    | _ => none
  cuts := by
    intro t captured rest h
    split at h
    · rename_i inner
      split at h
      · rename_i name after hsplit
        split at h
        · obtain ⟨rfl, rfl⟩ := Prod.mk.inj (Option.some.inj h)
          exact ⟨36 :: 123 :: (name ++ [125]), List.cons_ne_nil _ _, by simp [splitAtFirst_eq_some hsplit]⟩
        · cases h
      · cases h
    · cases h

/-- `/\$([A-Z_][A-Z0-9_]*)/g` -/
def plainReference : Capture Nat Text where
  find
    | 36 :: unit :: rest =>
      if isNameStart unit then some (unit :: rest.takeWhile isNameUnit, rest.dropWhile isNameUnit) else none
    | _ => none
  cuts := by
    intro t captured rest h
    split at h
    · rename_i unit inner
      split at h
      · obtain ⟨rfl, rfl⟩ := Prod.mk.inj (Option.some.inj h)
        exact ⟨36 :: unit :: inner.takeWhile isNameUnit, List.cons_ne_nil _ _, by simp⟩
      · cases h
    · cases h

/-- A value, marked if it was expanded from the environment of the process. -/
abbrev ParsedEnvEntry := Tracked Text

/-- The variables that a reference finds in the files, and which of their values are tainted. -/
structure FileVars (host : Host) where
  vars : PlainObject host.prototype Text
  tainted : Finset Text

def Host.normalizeKey (host : Host) (key : Text) : Text := if host.caseInsensitive then host.toLowerCase key else key

def substitute (env : ProcessEnv host) (scope : FileVars host) (varName : Text) : ParsedEnvEntry :=
  let lookupName := host.normalizeKey varName
  match scope.vars.read lookupName with
  | some fromFile => ⟨fromFile, lookupName ∈ scope.tainted⟩
  | none =>
    match getEnv env varName with
    | some fromProcess => ⟨fromProcess, true⟩
    | none => ⟨[], false⟩

def expandVariables (env : ProcessEnv host) (scope : FileVars host) (value : Text) : ParsedEnvEntry := do
  let value ← bracedReference.replaceAll (substitute env scope) value
  plainReference.replaceAll (substitute env scope) value

/-! ## Files -/

def FileVars.assign (scope : FileVars host) (key : Text) (entry : ParsedEnvEntry) : FileVars host where
  vars := scope.vars.assign key entry.value
  tainted := if entry.marked then insert key scope.tainted else scope.tainted.erase key

theorem FileVars.get?_assign (scope : FileVars host) (key : Text) (entry : ParsedEnvEntry) (name : Text) :
    (scope.assign key entry).vars.own.get? name =
      if name = key ∧ host.prototype.accessor key = false then some entry.value else scope.vars.own.get? name :=
  scope.vars.get?_assign key entry.value name

theorem FileVars.mem_tainted_assign (scope : FileVars host) (key : Text) (entry : ParsedEnvEntry) (name : Text) :
    name ∈ (scope.assign key entry).tainted ↔ if name = key then entry.marked = true else name ∈ scope.tainted := by
  rw [assign]
  by_cases hname : name = key
  · cases entry.marked <;> simp [hname]
  · cases entry.marked <;> simp [hname]

/-- The entries of a file so far, and what its references find. -/
structure ParsedFile (host : Host) where
  entries : PlainObject host.prototype ParsedEnvEntry
  scope : FileVars host

def record (env : ProcessEnv host) (file : ParsedFile host) (definition : Text × Text) : ParsedFile host :=
  let entry := expandVariables env file.scope definition.2
  { entries := file.entries.assign definition.1 entry
    scope := file.scope.assign (host.normalizeKey definition.1) entry }

def FileVars.copy (prior : FileVars host) : FileVars host where
  vars := prior.vars.entries.foldl (fun vars entry => vars.assign (host.normalizeKey entry.1) entry.2) .empty
  tainted := prior.tainted.image host.normalizeKey

def parseEnvFile (env : ProcessEnv host) (content : Text) (prior : FileVars host) : PlainObject host.prototype ParsedEnvEntry :=
  ((recorded content).foldl (record env) ⟨.empty, prior.copy⟩).entries

/-! ## Loading -/

structure EnvDirLoadOptions where
  override : Bool
  /-- Keep every value defined before this load, even an empty one. -/
  keepDefined : Bool

inductive FileSource
  | envFile
  | configFile
deriving DecidableEq

structure EnvSourceRecord where
  file : Text
  source : FileSource
  expandedFromProcessEnv : Bool
deriving DecidableEq

abbrev EnvSources := OrdMap Text EnvSourceRecord

/-- Whether a value already in the environment must stay, given the load mode. -/
def keepsExistingValue (existing : Option Text) (setByThisLoad : Bool) (options : EnvDirLoadOptions) : Bool :=
  if options.override then false
  else if setByThisLoad then false
  else if options.keepDefined then existing.isSome
  else existing.getD [] ≠ []

/-- Remove the provenance of every spelling of a key. -/
def Host.clearEnvSourceAliases (host : Host) (sources : EnvSources) (key : Text) : EnvSources :=
  let sources := sources.erase key
  if host.caseInsensitive then sources.filter fun recordedKey _ => host.toLowerCase recordedKey ≠ host.toLowerCase key
  else sources

structure LoadState (host : Host) where
  env : ProcessEnv host
  envSources : EnvSources
  loaded : FileVars host := ⟨.empty, ∅⟩
  keysSetByThisLoad : Finset Text := ∅

def LoadState.note (state : LoadState host) (file : Text) (entry : Text × ParsedEnvEntry) (env : ProcessEnv host) :
    LoadState host where
  env := env
  envSources := (host.clearEnvSourceAliases state.envSources entry.1).set entry.1 ⟨file, .envFile, entry.2.marked⟩
  loaded := state.loaded.assign (host.normalizeKey entry.1) entry.2
  keysSetByThisLoad := insert (host.normalizeKey entry.1) state.keysSetByThisLoad

/-- One entry of a file. `none` where its write is refused. -/
def loadEntry (options : EnvDirLoadOptions) (file : Text) (state : LoadState host) (entry : Text × ParsedEnvEntry) :
    Option (LoadState host) :=
  if keepsExistingValue (getEnv state.env entry.1) (host.normalizeKey entry.1 ∈ state.keysSetByThisLoad) options then some state
  else (setEnv state.env entry.1 entry.2.value).map (state.note file entry)

/-- A refused write ends the file, with a warning. -/
def loadEntries (options : EnvDirLoadOptions) (file : Text) : LoadState host → List (Text × ParsedEnvEntry) → LoadState host
  | state, [] => state
  | state, entry :: entries =>
    match loadEntry options file state entry with
    | some state => loadEntries options file state entries
    | none => state

/-- `none` for a file that is not there or cannot be read. -/
abbrev FileSystem := Text → Option Text

def loadFile (readTextFile : FileSystem) (options : EnvDirLoadOptions) (state : LoadState host) (file : Text) : LoadState host :=
  match readTextFile file with
  | some content => loadEntries options file state (parseEnvFile state.env content state.loaded).entries
  | none => state

def envMode (env : ProcessEnv host) : Text :=
  ((getEnv env (.of "NODE_ENV")).or (getEnv env (.of "DENO_ENV"))).getD (.of "development")

def envFiles (env : ProcessEnv host) (cwd : Text) : List Text :=
  [cwd ++ .of "/.env", cwd ++ .of "/.env." ++ envMode env, cwd ++ .of "/.env.local"]

/-- The state of the module, with the process it lives in. -/
structure Loader (host : Host) where
  env : ProcessEnv host
  envSources : EnvSources
  envLoaded : Bool
  envDirLoads : Finset Text

def readEnvDirFiles (readTextFile : FileSystem) (cwd : Text) (options : EnvDirLoadOptions) (loader : Loader host) : Loader host :=
  let state := (envFiles loader.env cwd).foldl (loadFile readTextFile options) { env := loader.env, envSources := loader.envSources }
  { env := state.env, envSources := state.envSources, envLoaded := true, envDirLoads := insert cwd loader.envDirLoads }

def loadEnv (readTextFile : FileSystem) (cwd : Text) (override : Bool) (loader : Loader host) : Loader host :=
  if cwd ∈ loader.envDirLoads then loader
  else if loader.envLoaded then loader
  else readEnvDirFiles readTextFile cwd { override, keepDefined := false } loader

/-- Never replaces a value that was defined before it started. -/
def loadAdditionalEnv (readTextFile : FileSystem) (cwd : Text) (loader : Loader host) : Loader host :=
  if cwd ∈ loader.envDirLoads then loader
  else readEnvDirFiles readTextFile cwd { override := false, keepDefined := true } loader

def resetEnvLoader (env : ProcessEnv host) : Loader host where
  env := env
  envSources := .empty
  envLoaded := false
  envDirLoads := ∅

/-! ## Where a value came from -/

inductive EnvSource
  | envFile (file : Text) (expandedFromProcessEnv : Bool)
  | configFile (file : Text)
  | process
  | unset
deriving DecidableEq

def toFileSource (record : EnvSourceRecord) : EnvSource :=
  match record.source with
  | .configFile => .configFile record.file
  | .envFile => .envFile record.file record.expandedFromProcessEnv

/-- A differently-cased entry that set this very variable. -/
def findAliasedEnvSource (loader : Loader host) (key value : Text) : Option EnvSourceRecord :=
  if host.caseInsensitive then
    (loader.envSources.entries.find? fun e =>
      e.1 ≠ key ∧ host.toLowerCase e.1 = host.toLowerCase key ∧ getEnv loader.env e.1 = some value).map Prod.snd
  else none

def getEnvSource (loader : Loader host) (key : Text) : EnvSource :=
  match loader.envSources.get? key with
  | some record => toFileSource record
  | none =>
    match getEnv loader.env key with
    | none => .unset
    | some value =>
      match findAliasedEnvSource loader key value with
      | some aliased => toFileSource aliased
      | none => .process

end Veryfront.EnvLoader
