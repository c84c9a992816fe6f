import Veryfront.Lib.SetIndex
import Veryfront.Lib.Reachable
import Veryfront.Utils.Text
import Mathlib.Data.List.Sort

/-!
# The dependency hash cache

The hash of a module covers the contents of everything it imports, directly or not. A cache keeps the import
graph, the content hashes and the set of modules whose imports have been followed. Builds run one after the
other, and within a build the modules are read side by side; an edit may come in at any point. A step of
the model ends where the code awaits. Modules in progress are not part of the model: builds do not
overlap, and within a build a module that is in progress has been visited, which is looked at first.
-/

namespace Veryfront.Cache

open Lib

/-! ## The graph -/

structure DependencyGraph where
  dependencies : OrdMap Text (List Text)
  dependents : OrdMap Text (List Text)

namespace DependencyGraph

def empty : DependencyGraph := ⟨.empty, .empty⟩

def getDirectDependencies (g : DependencyGraph) (filePath : Text) : List Text :=
  SetIndex.members g.dependencies filePath

def directDependents (g : DependencyGraph) (filePath : Text) : List Text :=
  SetIndex.members g.dependents filePath

def addModule (g : DependencyGraph) (filePath : Text) (deps : List Text) : DependencyGraph :=
  let nextDeps := appendNew [] deps
  let gone := (g.getDirectDependencies filePath).filter (· ∉ nextDeps)
  { dependencies := g.dependencies.set filePath nextDeps
    dependents := nextDeps.foldl (fun dependents dep => SetIndex.add dependents dep filePath)
      (gone.foldl (fun dependents oldDep => SetIndex.discard dependents oldDep filePath) g.dependents) }

def removeModule (g : DependencyGraph) (filePath : Text) : DependencyGraph where
  dependencies := g.dependencies.erase filePath
  dependents := (g.getDirectDependencies filePath).foldl (fun dependents dep => SetIndex.remove dependents dep filePath)
    g.dependents

def vertices (edges : OrdMap Text (List Text)) : List Text := edges.entries.flatMap fun e => e.1 :: e.2

def getTransitiveDependencies (g : DependencyGraph) (filePath : Text) : List Text :=
  (collect g.getDirectDependencies ((vertices g.dependencies).length + 2) [] filePath).filter (· ≠ filePath)

def getDependents (g : DependencyGraph) (filePath : Text) : List Text :=
  (collect g.directDependents ((vertices g.dependents).length + 2) [] filePath).filter (· ≠ filePath)

end DependencyGraph

/-! ## Import specifiers -/

def filterLocalImports (specifiers : List Text) : List Text :=
  specifiers.filter fun spec =>
    !spec.startsWith "#veryfront/" &&
      (spec.startsWith "./" || spec.startsWith "../" || spec.startsWith "@/" || spec.startsWith "file://")

def normalizeExtension (path : Text) : Text :=
  if path.endsWith ".ts" then path.dropLast.dropLast.dropLast ++ .of ".js"
  else if path.endsWith ".tsx" || path.endsWith ".jsx" then path.dropLast.dropLast.dropLast.dropLast ++ .of ".js"
  else path

def sourceExtensions : List String :=
  [".js", ".jsx", ".ts", ".tsx", ".cjs", ".cjsx", ".cts", ".ctsx", ".mjs", ".mjsx", ".mts", ".mtsx", ".md", ".mdx"]

def normalizeDependencyPath (path fromFile : Text) : Text :=
  if fromFile.endsWith ".src" && !path.endsWith ".src" && sourceExtensions.any path.endsWith then path ++ .of ".src"
  else normalizeExtension path

def slash : Nat := 47

def pathParts (path : Text) : List Text := (path.splitOn slash).filter (· ≠ [])

def directoryOf (path : Text) : Text := ((path.reverse.dropWhile (· ≠ slash)).drop 1).reverse

def relativePart (parts : List Text) (part : Text) : List Text :=
  if part = .of ".." then parts.dropLast else if part = .of "." then parts else parts ++ [part]

def normalizeSpecifierToPath (specifier fromFile projectDir : Text) : Text :=
  if specifier.startsWith "@/" then
    normalizeDependencyPath (projectDir ++ [slash] ++ specifier.drop 2) fromFile
  else if specifier.startsWith "./" || specifier.startsWith "../" then
    let parts := (pathParts specifier).foldl relativePart (pathParts (directoryOf fromFile))
    normalizeDependencyPath (slash :: [slash].intercalate parts) fromFile
  else if specifier.startsWith "file://" then normalizeDependencyPath (specifier.drop 7) fromFile
  else specifier

/-! ## The cache -/

/-- What the code takes from elsewhere: the digest and the parser of imports, which may reject a text. -/
structure DependencyEnv where
  computeHash : Text → Text
  extractImports : Text → Option (List Text)
  projectDir : Text

def DependencyEnv.localImports (env : DependencyEnv) (filePath content : Text) : Option (List Text) :=
  (env.extractImports content).map fun allImports =>
    (filterLocalImports allImports).map fun spec => normalizeSpecifierToPath spec filePath env.projectDir

structure DependencyHashCache where
  graph : DependencyGraph
  contentHashes : Text → Option Text
  completedModules : Text → Bool

def createDependencyHashCache : DependencyHashCache := ⟨.empty, fun _ => none, fun _ => false⟩

namespace DependencyHashCache

def modulesToInvalidate (cache : DependencyHashCache) (changedPaths : List Text) : List Text :=
  changedPaths.foldl (fun modules changedPath => appendNew modules (changedPath :: cache.graph.getDependents changedPath)) []

def evict (cache : DependencyHashCache) (filePath : Text) : DependencyHashCache where
  graph := cache.graph.removeModule filePath
  contentHashes := Function.update cache.contentHashes filePath none
  completedModules := Function.update cache.completedModules filePath false

def invalidate (cache : DependencyHashCache) (changedPaths : List Text) : DependencyHashCache :=
  (cache.modulesToInvalidate changedPaths).foldl evict cache

def hashedModules (cache : DependencyHashCache) (filePath : Text) : List Text :=
  (filePath :: cache.graph.getTransitiveDependencies filePath).insertionSort (· ≤ ·)

def depsHash (env : DependencyEnv) (cache : DependencyHashCache) (filePath : Text) : Text :=
  env.computeHash ((Text.of ":").intercalate
    (((cache.hashedModules filePath).map fun dep => (cache.contentHashes dep).getD []).filter (· ≠ [])))

end DependencyHashCache

/-! ## Builds -/

/-- What the build of one module awaits; it waits for the children whose builds it started. -/
inductive ModuleStage
  | reading
  | hashing (content : Text)
  | parsing (content : Text)
  | waiting (children : List Text)
  | done
deriving DecidableEq

/-- `modules` holds the visited modules. -/
structure GraphBuild where
  root : Text
  modules : OrdMap Text ModuleStage

/-- The modules visited once the dependencies have been gone through, and those among them that were new. -/
def visitDependencies (completed : Text → Bool) (modules : OrdMap Text ModuleStage) :
    List Text → OrdMap Text ModuleStage × List Text
  | [] => (modules, [])
  | dep :: deps =>
    if completed dep || modules.contains dep then visitDependencies completed modules deps
    else
      let (visited, children) := visitDependencies completed (modules.set dep .reading) deps
      (visited, dep :: children)

def GraphBuild.isDone (build : GraphBuild) (filePath : Text) : Bool := build.modules.get? filePath = some .done

def GraphBuild.finished (build : GraphBuild) : Bool :=
  !build.modules.contains build.root || build.isDone build.root

structure HashWorld where
  files : Text → Text
  cache : DependencyHashCache
  buildQueue : List Text
  running : Option GraphBuild
  results : List (Text × Text)

/-- What a module's build awaited has come: its text, or a failure of the read, its digest, its imports, its
children. -/
inductive ModuleEvent
  | read
  | readFails
  | hash
  | parse
  | complete
deriving DecidableEq

inductive HashAction
  | call (filePath : Text)
  | build
  | advance (filePath : Text) (event : ModuleEvent)
  | finish
  | edit (filePath content : Text)

namespace HashWorld

def initial (files : Text → Text) : HashWorld := ⟨files, createDependencyHashCache, [], none, []⟩

def setStage (w : HashWorld) (b : GraphBuild) (filePath : Text) (stage : ModuleStage) : HashWorld :=
  { w with running := some { b with modules := b.modules.set filePath stage } }

def startBuild (w : HashWorld) (root : Text) (rest : List Text) : HashWorld :=
  { w with
    buildQueue := rest
    running := some ⟨root, if w.cache.completedModules root then .empty else OrdMap.empty.set root .reading⟩ }

def failRead (w : HashWorld) (b : GraphBuild) (filePath : Text) : HashWorld :=
  { w.setStage b filePath .done with cache := { w.cache with graph := w.cache.graph.addModule filePath [] } }

def setHash (env : DependencyEnv) (w : HashWorld) (b : GraphBuild) (filePath content : Text) : HashWorld :=
  { w.setStage b filePath (.parsing content) with
    cache := { w.cache with
      contentHashes := Function.update w.cache.contentHashes filePath (some (env.computeHash content)) } }

def completeModule (w : HashWorld) (b : GraphBuild) (filePath : Text) : HashWorld :=
  { w.setStage b filePath .done with
    cache := { w.cache with completedModules := Function.update w.cache.completedModules filePath true } }

def addImports (env : DependencyEnv) (w : HashWorld) (b : GraphBuild) (filePath content : Text) : HashWorld :=
  match env.localImports filePath content with
  | none =>
    { w with cache := { w.cache with graph := w.cache.graph.addModule filePath [] } }.completeModule b filePath
  | some normalizedDeps =>
    let (visited, children) := visitDependencies w.cache.completedModules b.modules normalizedDeps
    { w with
      cache := { w.cache with graph := w.cache.graph.addModule filePath normalizedDeps }
      running := some { b with modules := visited.set filePath (.waiting children) } }

def stepModule (env : DependencyEnv) (w : HashWorld) (b : GraphBuild) (filePath : Text) :
    ModuleStage → ModuleEvent → Option HashWorld
  | .reading, .read => some (w.setStage b filePath (.hashing (w.files filePath)))
  | .reading, .readFails => some (w.failRead b filePath)
  | .hashing content, .hash => some (w.setHash env b filePath content)
  | .parsing content, .parse => some (w.addImports env b filePath content)
  | .waiting children, .complete => if children.all b.isDone then some (w.completeModule b filePath) else none
  | _, _ => none

def step (env : DependencyEnv) (w : HashWorld) : HashAction → Option HashWorld
  | .call filePath => some { w with buildQueue := w.buildQueue ++ [filePath] }
  | .build =>
    match w.running, w.buildQueue with
    | none, root :: rest => some (w.startBuild root rest)
    | _, _ => none
  | .advance filePath event =>
    w.running.bind fun b => (b.modules.get? filePath).bind fun stage => w.stepModule env b filePath stage event
  | .finish =>
    w.running.bind fun b =>
      if b.finished then
        some { w with running := none, results := w.results ++ [(b.root, w.cache.depsHash env b.root)] }
      else none
  | .edit filePath content =>
    some { w with files := Function.update w.files filePath content, cache := w.cache.invalidate [filePath] }

end HashWorld

end Veryfront.Cache
