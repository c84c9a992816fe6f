import Mathlib.Data.List.DropRight
import Mathlib.Logic.Function.Basic
import Veryfront.Lib.Runs
import Veryfront.Utils.Text

/-!
# Checker of ignored paths

A path that no rule matches is ignored if Git ignores it. Git is asked about candidates once each, and everything is asked
again when its rules are read afresh. Any number of calls can wait for an answer at the same time.
-/

namespace Veryfront.Sync

def slash : Nat := 47

def backslash : Nat := 92

/-! ## Paths -/

def normalizeIgnorePath (path : Text) : Text := path.map fun c => if c = backslash then slash else c

def trimTrailingSlashes (path : Text) : Text := path.rdropWhile (· = slash)

structure GitIgnoreContext where
  ignoredPaths : List Text
  reports : Text → Bool

def GitIgnoreContext.checkPaths (context : GitIgnoreContext) (paths : List Text) : List Text := paths.filter context.reports

def addGitIgnoredPath (set : List Text) (path : Text) : List Text :=
  let normalized := trimTrailingSlashes (normalizeIgnorePath path)
  if normalized = [] ∨ normalized ∈ set then set else set ++ [normalized]

def toGitIgnoredPathSet (paths : List Text) : List Text := paths.foldl addGitIgnoredPath []

def parentPaths (normalizedPath : Text) : List Text :=
  ((List.range normalizedPath.length).filter fun i => 0 < i ∧ normalizedPath[i]? = some slash).map normalizedPath.take

def isGitIgnored (gitIgnoredPaths : List Text) (normalizedPath : Text) : Bool :=
  if gitIgnoredPaths.length = 0 then false
  else if normalizedPath ∈ gitIgnoredPaths then true
  else (parentPaths normalizedPath).any (· ∈ gitIgnoredPaths)

/-! ## Rules -/

structure IgnoreRule where
  negated : Bool
  regex : Text → Bool

structure IgnoreRules where
  rules : List IgnoreRule
  isProtectedPath : Text → Bool
  hasEffectiveDescendantNegation : Text → Bool

def IgnoreRules.lastMatchedRule (checker : IgnoreRules) (normalizedPath : Text) : Option IgnoreRule :=
  checker.rules.foldl (fun last rule => if rule.regex normalizedPath then some rule else last) none

def IgnoreRules.isIgnored (checker : IgnoreRules) (gitIgnoredPaths : List Text) (relativePath : Text) (isDirectory : Bool) : Bool :=
  let normalizedPath := normalizeIgnorePath relativePath
  if checker.isProtectedPath normalizedPath then true
  else
    match checker.lastMatchedRule normalizedPath with
    | some rule => !rule.negated
    | none =>
      isGitIgnored gitIgnoredPaths normalizedPath &&
        !(isDirectory && checker.hasEffectiveDescendantNegation normalizedPath)

/-! ## Calls -/

/-- A question that waits for its answer, and the context that is asked. -/
structure Query where
  pending : List Text
  context : GitIgnoreContext

/-- Where a call has come to that waits. -/
inductive Call
  | resolving (paths : List Text) (query : Query)
  | reloading
  | rechecking (query : Query)

def Call.query? : Call → Option Query
  | .resolving _ query => some query
  | .reloading => none
  | .rechecking query => some query

/-- What has happened so far: the paths of questions that failed since the context came, the paths of the calls that
resolved, those of them since a refresh last started, and whether the last step resolved one. -/
structure Record where
  failed : List Text := []
  resolved : List Text := []
  due : List Text := []
  refreshed : Bool := false

structure State (κ : Type) where
  gitIgnoredPaths : List Text
  checkGitIgnoredPaths : GitIgnoreContext
  /-- Whether the context can be read again. -/
  loadGitIgnoreContext : Bool
  checkedGitCandidates : List Text := []
  calls : κ → Option Call
  record : Record := {}

variable {κ : Type} [DecidableEq κ]

/-- The checker of a project directory. -/
def start (gitContext : GitIgnoreContext) (loadGitIgnoreContext : Bool) : State κ where
  gitIgnoredPaths := toGitIgnoredPathSet gitContext.ignoredPaths
  checkGitIgnoredPaths := gitContext
  loadGitIgnoreContext
  calls := fun _ => none

/-- Marks a candidate, and puts it on the list of those to ask about. -/
def markCandidate (marks : List Text × List Text) (path : Text) : List Text × List Text :=
  let normalized := normalizeIgnorePath path
  if normalized = [] ∨ normalized ∈ marks.1 then marks else (marks.1 ++ [normalized], marks.2 ++ [normalized])

def markCandidates (checkedGitCandidates paths : List Text) : List Text × List Text :=
  paths.foldl markCandidate (checkedGitCandidates, [])

namespace State

variable (s : State κ) (call : κ)

def resolved (paths : List Text) : State κ :=
  { s with record := { s.record with resolved := s.record.resolved ++ paths, due := s.record.due ++ paths, refreshed := false } }

/-- Up to the question, if there is one. -/
def resolveGitIgnoredCandidates (paths : List Text) : State κ :=
  let (checkedGitCandidates, pending) := markCandidates s.checkedGitCandidates paths
  if pending.length = 0 then s.resolved paths
  else
    { s with
      checkedGitCandidates
      calls := Function.update s.calls call (some (.resolving paths ⟨pending, s.checkGitIgnoredPaths⟩))
      record := { s.record with refreshed := false } }

/-- Up to the reading of the context, if there is one to read. -/
def refreshGitIgnores : State κ :=
  if !s.loadGitIgnoreContext then { s with record := { s.record with refreshed := false } }
  else
    { s with
      calls := Function.update s.calls call (some .reloading)
      record := { s.record with due := [], refreshed := false } }

/-- The new context takes the place of the old one, and is asked about everything. -/
def reloaded (context : GitIgnoreContext) : State κ :=
  let (checkedGitCandidates, pending) := markCandidates [] s.checkedGitCandidates
  let next : State κ :=
    { s with
      gitIgnoredPaths := toGitIgnoredPathSet context.ignoredPaths
      checkGitIgnoredPaths := context
      checkedGitCandidates
      record := { s.record with failed := [], refreshed := decide (pending.length = 0) } }
  if pending.length = 0 then { next with calls := Function.update s.calls call none }
  else { next with calls := Function.update s.calls call (some (.rechecking ⟨pending, context⟩)) }

/-- What is reported goes to the set that is there now. -/
def classify (query : Query) : State κ :=
  { s with
    gitIgnoredPaths := (query.context.checkPaths query.pending).foldl addGitIgnoredPath s.gitIgnoredPaths
    calls := Function.update s.calls call none }

/-- The call ends without a result. -/
def rejected (failed : List Text) : State κ :=
  { s with
    calls := Function.update s.calls call none
    record := { s.record with failed := s.record.failed ++ failed, refreshed := false } }

end State

inductive Event (κ : Type)
  | resolveGitIgnoredCandidates (call : κ) (paths : List Text)
  | refreshGitIgnores (call : κ)
  | reloaded (call : κ) (context : GitIgnoreContext)
  | reloadFailed (call : κ)
  | answered (call : κ)
  | checkFailed (call : κ)

/-- From one await to the next. -/
inductive Step : State κ → Event κ → State κ → Prop
  | resolve {s : State κ} {call : κ} (paths : List Text) (idle : s.calls call = none) :
    Step s (.resolveGitIgnoredCandidates call paths) (s.resolveGitIgnoredCandidates call paths)
  | refresh {s : State κ} {call : κ} (idle : s.calls call = none) : Step s (.refreshGitIgnores call) (s.refreshGitIgnores call)
  | reloaded {s : State κ} {call : κ} (context : GitIgnoreContext) (waits : s.calls call = some .reloading) :
    Step s (.reloaded call context) (s.reloaded call context)
  | reloadFailed {s : State κ} {call : κ} (waits : s.calls call = some .reloading) :
    Step s (.reloadFailed call) (s.rejected call [])
  | resolved {s : State κ} {call : κ} {paths : List Text} {query : Query} (waits : s.calls call = some (.resolving paths query)) :
    Step s (.answered call) ((s.classify call query).resolved paths)
  | refreshed {s : State κ} {call : κ} {query : Query} (waits : s.calls call = some (.rechecking query)) :
    Step s (.answered call)
      { s.classify call query with record := { s.record with refreshed := true } }
  | checkFailed {s : State κ} {call : κ} {waiting : Call} {query : Query} (waits : s.calls call = some waiting)
    (asks : waiting.query? = some query) : Step s (.checkFailed call) (s.rejected call query.pending)

/-! ## What the checker promises -/

variable (checker : IgnoreRules) (s : State κ)

def IgnoreRules.Unmatched (path : Text) : Prop := ∀ rule ∈ checker.rules, rule.regex (normalizeIgnorePath path) = false

def NamesSomething (path : Text) : Prop := trimTrailingSlashes (normalizeIgnorePath path) ≠ []

def Classifies : Prop :=
  ∀ path ∈ s.record.due, NamesSomething path → checker.Unmatched path →
    s.checkGitIgnoredPaths.reports (normalizeIgnorePath path) = true → checker.isIgnored s.gitIgnoredPaths path false = true

def covers (path : Text) : List Text := normalizeIgnorePath path :: parentPaths (normalizeIgnorePath path)

structure Reflects : Prop where
  listed : ∀ path ∈ s.record.resolved, checker.Unmatched path →
    (∃ cover ∈ covers path, cover ∈ toGitIgnoredPathSet s.checkGitIgnoredPaths.ignoredPaths) →
      checker.isIgnored s.gitIgnoredPaths path false = true
  reported : ∀ path ∈ s.record.resolved, NamesSomething path → checker.Unmatched path →
    s.checkGitIgnoredPaths.reports (normalizeIgnorePath path) = true → checker.isIgnored s.gitIgnoredPaths path false = true
  nothing_else : ∀ path ∈ s.record.resolved, checker.Unmatched path → checker.isIgnored s.gitIgnoredPaths path false = true →
    checker.isProtectedPath (normalizeIgnorePath path) = true ∨
      ∃ cover ∈ covers path, cover ∈ toGitIgnoredPathSet s.checkGitIgnoredPaths.ignoredPaths ∨
        ∃ candidate ∈ s.checkedGitCandidates, s.checkGitIgnoredPaths.reports candidate = true ∧ cover = trimTrailingSlashes candidate

/-- Also when a refresh has just resolved and nothing waits. -/
def Promise : Prop :=
  Classifies checker s ∧ (s.record.refreshed = true → (∀ call, s.calls call = none) → Reflects checker s)

/-- No question about a path of the call has failed or waits; a context comes when no question waits and no call has
resolved since a refresh started. -/
def Orderly (e : Event κ) : Prop :=
  match e with
  | .resolveGitIgnoredCandidates _ paths =>
    ∀ path ∈ paths, normalizeIgnorePath path ∉ s.record.failed ∧
      ∀ call waiting query, s.calls call = some waiting → waiting.query? = some query → normalizeIgnorePath path ∉ query.pending
  | .reloaded _ _ => s.record.due = [] ∧ ∀ call waiting, s.calls call = some waiting → waiting.query? = none
  | _ => True

end Veryfront.Sync
