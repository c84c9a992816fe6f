import Veryfront.Cache.SegmentCodec
import Veryfront.Lib.OrdMap
import Veryfront.Lib.Utf8Decoder
import Veryfront.Sync.IgnoreChecker

/-!
# Git answers which paths it ignores

Candidates are grouped by the repository that they are in, and each repository is asked about its own in batches. Git prints
the arguments that its rules match, quoted where it has to, or refuses a batch because of a submodule.
-/

namespace Veryfront.Sync.GitIgnore

open Lib

/-! ## Commands -/

structure CommandResult where
  success : Bool
  code : Nat
  stdout : Text
  stderr : Text
  outputTruncated : Bool
deriving DecidableEq

/-- `none` is a command that could not start. -/
structure GitIgnoreDependencies where
  runCommand : (cwd : Text) → (args : List Text) → Option CommandResult
  hasGitMetadata : (directory : Text) → Bool

structure GitIgnoreError where
  message : String
deriving DecidableEq

def gitIgnoreUnavailableError {α : Type} : Except GitIgnoreError α :=
  .error ⟨"Could not read Git ignore rules for this project. Ensure Git can inspect the project checkout and try again."⟩

inductive GitIgnoreRun
  | output (stdout : Text) (code : Nat)
  | noRepository
  | submodulePath (pathspec submodule : Text)
deriving DecidableEq

def singleQuote : Nat := 39

def isLineTerminator (c : Nat) : Bool := c ∈ [lf, cr, 0x2028, 0x2029]

/-- As much as one unit or more before the last quote of a line. -/
def beforeLastQuote (t : Text) : Option Text :=
  ((List.range t.length).reverse.find? fun i => 0 < i ∧ t[i]? = some singleQuote).map t.take

def pathspecStart : Text := .of "Pathspec '"

def between : Text := .of "' is in submodule '"

/-- What is captured behind the start: both captures are as long as they can be. -/
def pathspecCaptures (t : Text) : Option (Text × Text) :=
  let line := t.takeWhile fun c => !isLineTerminator c
  (List.range line.length).reverse.findSome? fun i =>
    if 0 < i ∧ between.isPrefixOf (line.drop i) then
      (beforeLastQuote (line.drop (i + between.length))).map fun submodule => (line.take i, submodule)
    else none

/-- `/Pathspec '(.+)' is in submodule '(.+)'/` -/
def submodulePathspecError (stderr : Text) : Option (Text × Text) :=
  stderr.tails.findSome? fun t => if pathspecStart.isPrefixOf t then pathspecCaptures (t.drop pathspecStart.length) else none

def asciiLower (t : Text) : Text := t.map fun c => if 65 ≤ c ∧ c ≤ 90 then c + 32 else c

def runGitIgnoreQuery (dependencies : GitIgnoreDependencies) (directory : Text) (args : List Text)
    (acceptedFailureCodes : List Nat) : Except GitIgnoreError GitIgnoreRun :=
  match dependencies.runCommand directory args with
  | none => if dependencies.hasGitMetadata directory then gitIgnoreUnavailableError else .ok .noRepository
  | some result =>
    if result.outputTruncated then gitIgnoreUnavailableError
    else if result.success || acceptedFailureCodes.contains result.code then .ok (.output result.stdout result.code)
    else
      match submodulePathspecError result.stderr with
      | some (pathspec, submodule) => .ok (.submodulePath pathspec submodule)
      | none =>
        if (asciiLower result.stderr).includes "not a git repository" then .ok .noRepository
        else if !dependencies.hasGitMetadata directory then .ok .noRepository
        else gitIgnoreUnavailableError

/-! ## Quoted paths -/

def cStyleEscapes : List (Nat × Nat) :=
  [(97, 7), (98, 8), (116, 9), (110, 10), (118, 11), (102, 12), (114, 13), (34, 34), (92, 92)]

def isOctalDigit (c : Nat) : Bool := 48 ≤ c && c ≤ 55

def octalByte : List Nat → Option Nat
  | a :: b :: c :: _ =>
    if (48 ≤ a && a ≤ 51) && isOctalDigit b && isOctalDigit c then some (64 * (a - 48) + 8 * (b - 48) + (c - 48)) else none
  | _ => none

/-- The bytes of characters, the first `skip` of which have been read. -/
def unquotedBytes : (skip : Nat) → List Nat → List Nat
  | _, [] => []
  | skip + 1, _ :: rest => unquotedBytes skip rest
  | 0, character :: rest =>
    if character ≠ 92 then Cache.textEncode (unitsOf character) ++ unquotedBytes 0 rest
    else
      match octalByte rest with
      | some byte => byte :: unquotedBytes 3 rest
      | none =>
        match rest.head?.bind (List.lookup · cStyleEscapes) with
        | some byte => byte :: unquotedBytes 1 rest
        | none => Cache.textEncode (unitsOf character) ++ unquotedBytes 0 rest

def unquoteGitPath (line : Text) : Text :=
  if line.length < 2 ∨ line.head? ≠ some 34 ∨ line.getLast? ≠ some 34 then line
  else (Utf8.decode (unquotedBytes 0 (codePoints line.tail.dropLast))).flatMap unitsOf

/-! ## One repository -/

/-- How the arguments name the project directory from where Git is asked. -/
def argumentPrefix (relativeProjectDir : Text) : Text :=
  if relativeProjectDir = [46] then [46, slash] else [46, slash] ++ relativeProjectDir ++ [slash]

def submoduleArgumentRoot (pathspec submodule repositoryPrefix : Text) : Option Text :=
  let relativeSubmodule :=
    if repositoryPrefix ≠ [] ∧ repositoryPrefix.isPrefixOf submodule then submodule.drop repositoryPrefix.length else submodule
  let segments := pathspec.splitOn slash
  ((List.range' 1 (segments.length - 1)).map fun length => [slash].intercalate (segments.take length)).find?
    (· = [46, slash] ++ relativeSubmodule)

def CHECK_IGNORE_ARGUMENT_BUDGET : Nat := 24000

def batchesFrom (batch : List Text) (batchLength : Nat) : List Text → List (List Text)
  | [] => [batch]
  | argument :: arguments =>
    if batch.length > 0 ∧ batchLength + argument.length > CHECK_IGNORE_ARGUMENT_BUDGET then
      batch :: batchesFrom [argument] (argument.length + 1) arguments
    else batchesFrom (batch ++ [argument]) (batchLength + argument.length + 1) arguments

def batchArguments (arguments : List Text) : List (List Text) := batchesFrom [] 0 arguments

def parseCheckIgnoreOutput (stdout outputPrefix : Text) : List Text :=
  (stdout.splitOn lf).filterMap fun line =>
    if line = [] then none
    else if outputPrefix.isPrefixOf (unquoteGitPath line) then some ((unquoteGitPath line).drop outputPrefix.length)
    else none

structure CheckIgnoreScope where
  baseDir : Text
  relativeProjectDir : Text
  dependencies : GitIgnoreDependencies

def showPrefixCommand : List Text := [.of "rev-parse", .of "--show-prefix"]

def checkIgnoreCommand : List Text := [.of "-c", .of "core.quotePath=false", .of "check-ignore"]

namespace CheckIgnoreScope

variable (scope : CheckIgnoreScope)

def argumentPrefix : Text := GitIgnore.argumentPrefix scope.relativeProjectDir

def repositoryPrefix : Except GitIgnoreError Text := do
  match ← runGitIgnoreQuery scope.dependencies scope.baseDir showPrefixCommand [] with
  | .output stdout _ => return stdout.trim
  | _ => return []

end CheckIgnoreScope

/-- What is left of the arguments when one is refused. -/
def remainingArguments (arguments : List Text) (pathspec : Text) (submoduleRoot : Option Text) : List Text :=
  arguments.filter fun argument => argument ≠ pathspec ∧ !(submoduleRoot.any fun root => (root ++ [slash]).isPrefixOf argument)

/-- `none` where there is no repository. -/
def checkIgnoreBatch (scope : CheckIgnoreScope) (arguments : List Text) : Except GitIgnoreError (Option (List Text)) :=
  if arguments = [] then .ok (some [])
  else do
    match ← runGitIgnoreQuery scope.dependencies scope.baseDir (checkIgnoreCommand ++ arguments) [1] with
    | .noRepository => return none
    | .output stdout code => return some (if code = 1 then [] else parseCheckIgnoreOutput stdout scope.argumentPrefix)
    | .submodulePath pathspec submodule =>
      let submoduleRoot := submoduleArgumentRoot pathspec submodule (← scope.repositoryPrefix)
      if (remainingArguments arguments pathspec submoduleRoot).length = arguments.length then gitIgnoreUnavailableError
      else checkIgnoreBatch scope (remainingArguments arguments pathspec submoduleRoot)
termination_by arguments.length
decreasing_by
  rename_i hlength
  exact lt_of_le_of_ne (List.length_filter_le ..) hlength

def checkBatches (scope : CheckIgnoreScope) (ignored : List Text) : List (List Text) → Except GitIgnoreError (List Text)
  | [] => .ok ignored
  | batch :: batches => do
    match ← checkIgnoreBatch scope batch with
    | none => return []
    | some result => checkBatches scope (ignored ++ result) batches

def checkOwnPaths (scope : CheckIgnoreScope) (candidates : List Text) : Except GitIgnoreError (List Text) :=
  if candidates.length = 0 then .ok []
  else checkBatches scope [] (batchArguments (candidates.map (scope.argumentPrefix ++ ·)))

/-! ## Nested repositories -/

/-- A repository below the project directory, and the rules of its own. -/
structure NestedRepositoryContext where
  path : Text
  checkPaths : List Text → Except GitIgnoreError (List Text)

def Beneath (directory path : Text) : Prop := directory ++ [slash] <+: path

instance (directory path : Text) : Decidable (Beneath directory path) := inferInstanceAs (Decidable (_ <+: _))

/-- The candidates that are asked about, by the place of their repository, and those of the project's own. -/
structure Candidates where
  nested : OrdMap Nat (List Text) := .empty
  own : List Text := []

def Candidates.add (candidates : Candidates) (repositories : List Text) (path : Text) : Candidates :=
  match repositories.findIdx? fun directory => Beneath directory path with
  | some place =>
    let grouped := (candidates.nested.get? place).getD []
    let below := path.drop ((repositories.getD place []).length + 1)
    { candidates with nested := candidates.nested.set place (grouped ++ [below]) }
  | none => { candidates with own := candidates.own ++ [path] }

def groupCandidates (repositories : List Text) (isBeneathSymlink : Text → Bool) (paths : List Text) : Candidates :=
  (paths.eraseDups.filter fun path => path ≠ [] ∧ !isBeneathSymlink path).foldl (·.add repositories ·) {}

/-- Each group is asked of its repository, and reported under the names from the project. -/
def checkNested (nestedRepositories : List NestedRepositoryContext) (ignored : List Text) :
    List (Nat × List Text) → Except GitIgnoreError (List Text)
  | [] => .ok ignored
  | (place, grouped) :: groups =>
    match nestedRepositories[place]? with
    | none => checkNested nestedRepositories ignored groups
    | some repository => do
      let paths ← repository.checkPaths grouped
      checkNested nestedRepositories (ignored ++ paths.map (repository.path ++ [slash] ++ ·)) groups

def createPathChecker (scope : CheckIgnoreScope) (nestedRepositories : List NestedRepositoryContext)
    (isBeneathSymlink : Text → Bool) (paths : List Text) : Except GitIgnoreError (List Text) := do
  let candidates := groupCandidates (nestedRepositories.map (·.path)) isBeneathSymlink paths
  let ignored ← checkNested nestedRepositories [] candidates.nested.entries
  return ignored ++ (← checkOwnPaths scope candidates.own)

/-- Longest paths first. -/
def sortRepositories (repositories : List NestedRepositoryContext) : List NestedRepositoryContext :=
  repositories.mergeSort fun left right => right.path.length ≤ left.path.length

/-- A repository and those nested in it. One whose directory is ignored, or that is none, is not asked. -/
inductive Repository
  | disabled
  | checked (scope : CheckIgnoreScope) (isBeneathSymlink : Text → Bool) (paths : List Text) (distinct : paths.Nodup)
    (repositories : Fin paths.length → Repository)

def Repository.checkPaths : Repository → List Text → Except GitIgnoreError (List Text)
  | .disabled => fun _ => .ok []
  | .checked scope isBeneathSymlink paths _ repositories =>
    createPathChecker scope (sortRepositories (List.ofFn fun i => ⟨paths.get i, (repositories i).checkPaths⟩)) isBeneathSymlink

end Veryfront.Sync.GitIgnore
