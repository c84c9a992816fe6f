import Veryfront.Workflow.Types
import Veryfront.Lib.DepthFirst
import Veryfront.Lib.ListUpdate

/-!
# The dependency graph of a workflow

How the executor turns a list of nodes into a graph: the adjacency lists, the in-degree of every
node and the nodes by id. A node waits for its explicit dependencies, or else for the node before
it in the list. The graph that comes out is well formed: its lists have no repeats, they name
only its own nodes, and an in-degree is the number of predecessors.
-/

namespace Veryfront.Workflow

open Veryfront.Lib

inductive NodeType
  | step | parallel | map | branch | wait | subWorkflow | loop
deriving DecidableEq, Repr

mutual

/-- A node and the fields of its config that scheduling reads. -/
structure WorkflowNode where
  id : String
  dependsOn : Option (List String) := none
  /-- Whether the config has a `skip` callback. -/
  skip : Bool := false
  /-- `retry?.maxAttempts` -/
  maxAttempts : Option Nat := none
  config : NodeConfig

/-- The config of a node with the children that are visible in it. Steps that come from a callback
or from a workflow referred to by name are `none`, as are the wrappers of a map whose items or
processor are not static. -/
inductive NodeConfig
  | step
  | wait
  | parallel (nodes : List WorkflowNode)
  | branch (then_ : List WorkflowNode) (else_ : List WorkflowNode)
  | loop (steps : Option (List WorkflowNode))
  | map (wrapperNodes : Option (List WorkflowNode))
  | subWorkflow (steps : Option (List WorkflowNode))

end

def NodeConfig.type : NodeConfig → NodeType
  | .step => .step
  | .wait => .wait
  | .parallel _ => .parallel
  | .branch _ _ => .branch
  | .loop _ => .loop
  | .map _ => .map
  | .subWorkflow _ => .subWorkflow

structure DAGGraph where
  adjList : OrdMap String (List String)
  inDegree : OrdMap String Int
  nodeMap : OrdMap String WorkflowNode

namespace DAGGraph

def dependents (g : DAGGraph) (nodeId : String) : List String := (g.adjList.get? nodeId).getD []

def degree (g : DAGGraph) (nodeId : String) : Int := (g.inDegree.get? nodeId).getD 0

/-- `dependents.push(to)` together with the raise of the in-degree of `to`. -/
def pushDependent (g : DAGGraph) (source target : String) : DAGGraph :=
  { g with
    adjList := g.adjList.set source (g.dependents source ++ [target])
    inDegree := g.inDegree.set target (g.degree target + 1) }

end DAGGraph

def hasAnyDependents (nodes : List WorkflowNode) (nodeId : String) : Bool :=
  nodes.any fun n => (n.dependsOn.getD []).contains nodeId

def registerNodes : List WorkflowNode → DAGGraph → Except VeryfrontError DAGGraph
  | [], g => .ok g
  | node :: rest, g =>
    if g.nodeMap.contains node.id then
      .error (.invalidArgument s!"Workflow graph has duplicate node ID \"{node.id}\"")
    else
      registerNodes rest ⟨g.adjList.set node.id [], g.inDegree.set node.id 0, g.nodeMap.set node.id node⟩

/-- The dependencies of one node that are left to add, after those in `dependencies`. -/
def addDependenciesOf (nodeId : String) (dependencies : List String) :
    List String → DAGGraph → Except VeryfrontError DAGGraph
  | [], g => .ok g
  | dep :: rest, g =>
    if dep ∈ dependencies then
      .error (.invalidArgument
        s!"Workflow graph node \"{nodeId}\" contains duplicate dependency \"{dep}\"")
    else if ¬ g.adjList.contains dep then
      .error (.invalidArgument s!"Node \"{nodeId}\" depends on unknown node \"{dep}\"")
    else
      addDependenciesOf nodeId (dep :: dependencies) rest (g.pushDependent dep nodeId)

def addExplicitDependencies : List WorkflowNode → DAGGraph → Except VeryfrontError DAGGraph
  | [], g => .ok g
  | node :: rest, g => do
    let g ← addDependenciesOf node.id [] (node.dependsOn.getD []) g
    addExplicitDependencies rest g

/-- The edges between neighbours in the list. A node takes one only when it has no `dependsOn`, not
even an empty one, no edge in and no dependents. An empty id of the node before counts as no id. -/
def addSequentialDependencies (nodes : List WorkflowNode) :
    Option String → List WorkflowNode → DAGGraph → DAGGraph
  | _, [], g => g
  | prevNodeId, node :: rest, g =>
    let g := match prevNodeId with
      | none => g
      | some prev =>
        if prev = "" then g
        else if node.dependsOn.isSome then g
        else if g.degree node.id ≠ 0 ∨ hasAnyDependents nodes node.id then g
        else g.pushDependent prev node.id
    addSequentialDependencies nodes (some node.id) rest g

def buildGraph (nodes : List WorkflowNode) : Except VeryfrontError DAGGraph := do
  let g ← registerNodes nodes ⟨.empty, .empty, .empty⟩
  let g ← addExplicitDependencies nodes g
  return addSequentialDependencies nodes none nodes g

def isReady (nodeStates : NodeStates) (nodeId : String) : Bool :=
  match nodeStates.get? nodeId with
  | none => true
  | some state => state.status = .pending ∨ state.status = .failed

def getReadyNodes (inDegree : OrdMap String Int) (nodeStates : NodeStates) : List String :=
  (inDegree.entries.filter fun (nodeId, degree) => degree = 0 ∧ isReady nodeStates nodeId).map Prod.fst

def hasCycle (nodes : List WorkflowNode) (g : DAGGraph) : Option Bool :=
  DepthFirst.searchFrom g.dependents nodes.length ⟨[], []⟩ (nodes.map (·.id))

/-- Nothing below this node waits for it any more. -/
def NodeStatus.done (status : NodeStatus) : Bool := status = .completed ∨ status = .skipped

def isDone (nodeStates : NodeStates) (nodeId : String) : Bool :=
  (nodeStates.get? nodeId).any fun state => state.status.done

/-- Takes one from the in-degree of each dependent where `guard` lets it. -/
def lowerDegrees (guard : Int → Bool) (inDegree : OrdMap String Int) (dependents : List String) :
    OrdMap String Int :=
  dependents.foldl (fun inDegree dependent =>
    let currentDegree := (inDegree.get? dependent).getD 0
    if guard currentDegree then inDegree.set dependent (currentDegree - 1) else inDegree) inDegree

def updateInDegreesForCompletedNodes (nodeStates : NodeStates) (g : DAGGraph) : OrdMap String Int :=
  nodeStates.entries.foldl (fun inDegree (nodeId, state) =>
    if state.status.done then lowerDegrees (· > 0) inDegree (g.dependents nodeId) else inDegree) g.inDegree

/-! ## Well-formed graphs -/

structure WellFormed (nodes : List WorkflowNode) (g : DAGGraph) : Prop where
  ids : g.inDegree.keys = nodes.map (·.id)
  node : ∀ node ∈ nodes, g.nodeMap.get? node.id = some node
  nodeKeys : g.nodeMap.keys = nodes.map (·.id)
  known : ∀ u, g.adjList.contains u → u ∈ g.inDegree.keys
  nodup : ∀ u, (g.dependents u).Nodup
  closed : ∀ u, g.dependents u ⊆ g.inDegree.keys
  degree_eq : ∀ v, g.degree v = g.inDegree.keys.countP (v ∈ g.dependents ·)

namespace DAGGraph

variable (g : DAGGraph) (source target : String)

theorem dependents_pushDependent (u : String) :
    (g.pushDependent source target).dependents u =
      if u = source then g.dependents source ++ [target] else g.dependents u := by
  simp only [pushDependent, dependents, OrdMap.get?_set]
  split <;> rfl

theorem degree_pushDependent (v : String) :
    (g.pushDependent source target).degree v =
      if v = target then g.degree target + 1 else g.degree v := by
  simp only [pushDependent, degree, OrdMap.get?_set]
  split <;> rfl

theorem dependents_eq_nil {u : String} (h : ¬ g.adjList.contains u) : g.dependents u = [] := by
  rw [OrdMap.contains, Option.isSome_iff_ne_none, not_not] at h
  rw [dependents, h]
  rfl

end DAGGraph

namespace WellFormed

variable {nodes : List WorkflowNode} {g : DAGGraph}

theorem source_mem (h : WellFormed nodes g) {u v : String} (hv : v ∈ g.dependents u) :
    u ∈ g.inDegree.keys := by
  refine h.known u ?_
  by_contra hu
  rw [g.dependents_eq_nil hu] at hv
  exact List.not_mem_nil hv

theorem no_predecessor (h : WellFormed nodes g) {v : String} (hv : g.degree v = 0) (u : String) :
    v ∉ g.dependents u := by
  intro hu
  have hpos : 0 < g.inDegree.keys.countP (v ∈ g.dependents ·) :=
    List.countP_pos_iff.mpr ⟨u, h.source_mem hu, by simpa using hu⟩
  rw [h.degree_eq v] at hv
  omega

theorem id_eq (h : WellFormed nodes g) {v : String} {node : WorkflowNode}
    (hv : g.nodeMap.get? v = some node) : node.id = v := by
  have hk : v ∈ g.nodeMap.keys := by
    rw [← OrdMap.contains_iff, OrdMap.contains, hv]
    rfl
  obtain ⟨n, hn, rfl⟩ := List.mem_map.mp (h.nodeKeys ▸ hk)
  rw [h.node n hn] at hv
  rw [Option.some.inj hv]

theorem pushDependent (h : WellFormed nodes g) {source target : String}
    (hs : source ∈ g.inDegree.keys) (ht : target ∈ g.inDegree.keys)
    (hnew : target ∉ g.dependents source) : WellFormed nodes (g.pushDependent source target) := by
  have hkeys : (g.pushDependent source target).inDegree.keys = g.inDegree.keys :=
    OrdMap.keys_set_of_mem ht _
  refine ⟨hkeys ▸ h.ids, h.node, h.nodeKeys, fun u hu => ?_, fun u => ?_, fun u => ?_, fun v => ?_⟩
  · rw [hkeys]
    by_cases hus : u = source
    · exact hus ▸ hs
    · refine h.known u ?_
      simpa [DAGGraph.pushDependent, OrdMap.contains, hus] using hu
  · rw [DAGGraph.dependents_pushDependent]
    split
    · exact List.nodup_append.mpr ⟨h.nodup _, List.nodup_singleton _, by
        rintro v hv _ hw rfl
        exact hnew (List.mem_singleton.mp hw ▸ hv)⟩
    · exact h.nodup u
  · rw [DAGGraph.dependents_pushDependent, hkeys]
    split
    · refine List.append_subset.mpr ⟨h.closed _, fun v hv => ?_⟩
      exact List.mem_singleton.mp hv ▸ ht
    · exact h.closed u
  · rw [DAGGraph.degree_pushDependent, hkeys]
    split
    · rename_i hv
      subst hv
      have hcount := countP_flip g.inDegree.keys_nodup hs (p := fun u => v ∈ g.dependents u)
        (q := fun u => v ∈ (g.pushDependent source v).dependents u) (by simpa using hnew)
        (by simp [DAGGraph.dependents_pushDependent])
        (fun u _ hu => by simp [DAGGraph.dependents_pushDependent, hu])
      rw [h.degree_eq v, hcount]
      rfl
    · rename_i hv
      rw [h.degree_eq v]
      congr 1
      refine List.countP_congr fun u _ => ?_
      rw [DAGGraph.dependents_pushDependent]
      split
      · rename_i hu; subst hu; simp [hv]
      · rfl

end WellFormed

/-! ## What `buildGraph` accepts is well formed -/

structure Registered (nodes : List WorkflowNode) (g : DAGGraph) : Prop where
  wellFormed : WellFormed nodes g
  edgeless : ∀ u, g.dependents u = []

variable {nodes : List WorkflowNode} {g : DAGGraph}

theorem Registered.register (h : Registered nodes g)
    {node : WorkflowNode} (hnew : ¬ g.nodeMap.contains node.id) :
    Registered (nodes ++ [node]) ⟨g.adjList.set node.id [], g.inDegree.set node.id 0,
      g.nodeMap.set node.id node⟩ := by
  have hid : node.id ∉ nodes.map (·.id) := by
    rwa [OrdMap.contains_iff, h.wellFormed.nodeKeys] at hnew
  have hkeys : (g.inDegree.set node.id 0).keys = g.inDegree.keys ++ [node.id] := by
    rw [OrdMap.keys_set, if_neg (h.wellFormed.ids ▸ hid)]
  have hedgeless : ∀ u, ((g.adjList.set node.id []).get? u).getD [] = [] := by
    intro u
    rw [OrdMap.get?_set]
    split
    · rfl
    · exact h.edgeless u
  refine ⟨⟨?_, fun n hn => ?_, ?_, fun u hu => ?_, fun u => ?_, fun u => ?_, fun v => ?_⟩, hedgeless⟩
  · simp [hkeys, h.wellFormed.ids]
  · rw [OrdMap.get?_set]
    rcases List.mem_append.mp hn with hn | hn
    · rw [if_neg (fun e : n.id = node.id => hid (e ▸ List.mem_map_of_mem hn)), h.wellFormed.node n hn]
    · rw [List.mem_singleton.mp hn, if_pos rfl]
  · rw [OrdMap.keys_set, if_neg (h.wellFormed.nodeKeys ▸ hid), h.wellFormed.nodeKeys]
    simp
  · show u ∈ (g.inDegree.set node.id 0).keys
    rw [hkeys, List.mem_append, List.mem_singleton]
    by_cases hu' : u = node.id
    · exact .inr hu'
    · refine .inl (h.wellFormed.known u ?_)
      simpa [OrdMap.contains, hu'] using hu
  · rw [DAGGraph.dependents, hedgeless u]
    exact List.nodup_nil
  · rw [DAGGraph.dependents, hedgeless u]
    exact List.nil_subset _
  · have hzero : g.degree v = 0 := by
      rw [h.wellFormed.degree_eq v]
      simp [h.edgeless]
    have hset : ((g.inDegree.set node.id 0).get? v).getD 0 = 0 := by
      rw [OrdMap.get?_set]
      split
      · rfl
      · exact hzero
    simp only [DAGGraph.degree, DAGGraph.dependents, hset, hedgeless]
    simp

theorem registerNodes_ok (rest : List WorkflowNode) {g' : DAGGraph} :
    ∀ (nodes : List WorkflowNode) (g : DAGGraph), Registered nodes g → registerNodes rest g = .ok g' →
      Registered (nodes ++ rest) g' := by
  induction rest with
  | nil =>
    intro nodes g h hg
    obtain rfl := Except.ok.inj hg
    simpa using h
  | cons node rest ih =>
    intro nodes g h hg
    unfold registerNodes at hg
    split at hg
    · cases hg
    · rename_i hnew
      have := ih (nodes ++ [node]) _ (h.register hnew) hg
      simpa using this

/-- The nodes on `earlier` have their explicit edges, and node `nodeId` those from `seen`. -/
def EdgesInto (g : DAGGraph) (earlier : List String) (nodeId : String) (seen : List String) : Prop :=
  ∀ u v, v ∈ g.dependents u → v ∈ earlier ∨ v = nodeId ∧ u ∈ seen

theorem addDependenciesOf_ok (earlier : List String) {nodeId : String}
    (hid : nodeId ∈ nodes.map (·.id)) (hearlier : nodeId ∉ earlier) {g' : DAGGraph} (deps : List String) :
    ∀ (seen : List String) (g : DAGGraph), WellFormed nodes g → EdgesInto g earlier nodeId seen →
      addDependenciesOf nodeId seen deps g = .ok g' →
      WellFormed nodes g' ∧ ∀ u v, v ∈ g'.dependents u → v ∈ earlier ∨ v = nodeId := by
  induction deps with
  | nil =>
    intro seen g h he hg
    obtain rfl := Except.ok.inj hg
    exact ⟨h, fun u v hv => (he u v hv).imp_right And.left⟩
  | cons dep rest ih =>
    intro seen g h he hg
    unfold addDependenciesOf at hg
    split at hg
    · cases hg
    split at hg
    · cases hg
    rename_i hseen hknown
    have hnew : nodeId ∉ g.dependents dep := by
      intro hmem
      rcases he dep nodeId hmem with h' | ⟨-, h'⟩
      · exact hearlier h'
      · exact hseen h'
    refine ih (dep :: seen) _
      (h.pushDependent (h.known dep (not_not.mp hknown)) (h.ids ▸ hid) hnew) ?_ hg
    intro u v hv
    rw [DAGGraph.dependents_pushDependent] at hv
    split at hv
    · rename_i hu
      rcases List.mem_append.mp hv with hv | hv
      · exact (he dep v hv).imp_right fun e => ⟨e.1, hu ▸ List.mem_cons_self⟩
      · exact .inr ⟨List.mem_singleton.mp hv, hu ▸ List.mem_cons_self⟩
    · exact (he u v hv).imp_right fun e => ⟨e.1, List.mem_cons_of_mem _ e.2⟩

theorem addExplicitDependencies_ok {g' : DAGGraph}
    (hnodup : (nodes.map (·.id)).Nodup) (rest : List WorkflowNode) :
    ∀ (earlier : List WorkflowNode) (g : DAGGraph), nodes = earlier ++ rest → WellFormed nodes g →
      (∀ u v, v ∈ g.dependents u → v ∈ earlier.map (·.id)) →
      addExplicitDependencies rest g = .ok g' → WellFormed nodes g' := by
  induction rest with
  | nil =>
    intro earlier g _ h _ hg
    obtain rfl := Except.ok.inj hg
    exact h
  | cons node rest ih =>
    intro earlier g hsplit h he hg
    rw [hsplit, List.map_append, List.nodup_append] at hnodup
    have hearlier : node.id ∉ earlier.map (·.id) := fun hm =>
      hnodup.2.2 _ hm _ (List.mem_map_of_mem List.mem_cons_self) rfl
    unfold addExplicitDependencies at hg
    cases hdeps : addDependenciesOf node.id [] (node.dependsOn.getD []) g with
    | error e => rw [hdeps] at hg; cases hg
    | ok g₁ =>
      rw [hdeps] at hg
      obtain ⟨h₁, he₁⟩ := addDependenciesOf_ok (earlier.map (·.id))
        (by rw [hsplit]; simp) hearlier _ _ g h (fun u v hv => .inl (he u v hv)) hdeps
      refine ih (earlier ++ [node]) g₁ (by simp [hsplit]) h₁ (fun u v hv => ?_) hg
      simpa using he₁ u v hv

theorem addSequentialDependencies_ok (rest : List WorkflowNode) :
    ∀ (prev : Option String) (g : DAGGraph), (∀ p ∈ prev, p ∈ nodes.map (·.id)) →
      rest.map (·.id) ⊆ nodes.map (·.id) → WellFormed nodes g →
      WellFormed nodes (addSequentialDependencies nodes prev rest g) := by
  induction rest with
  | nil => exact fun _ _ _ _ h => h
  | cons node rest ih =>
    intro prev g hp hrest h
    have hid : node.id ∈ nodes.map (·.id) := hrest List.mem_cons_self
    unfold addSequentialDependencies
    refine ih (some node.id) _ (fun p hp => Option.mem_some.mp hp ▸ hid) (fun v hv => hrest (List.mem_cons_of_mem _ hv)) ?_
    split
    · exact h
    · rename_i p
      repeat' split
      · exact h
      · exact h
      · exact h
      · rename_i hfree
        have hzero : g.degree node.id = 0 := by
          by_contra hne
          exact hfree (.inl hne)
        exact h.pushDependent (h.ids ▸ hp p rfl) (h.ids ▸ hid) (h.no_predecessor hzero p)

/-- The stages of `buildGraph`: the nodes, the declared edges, the edges between neighbours. -/
theorem buildGraph_stages (hg : buildGraph nodes = .ok g) :
    ∃ registered explicit, Registered nodes registered ∧ (nodes.map (·.id)).Nodup ∧
      addExplicitDependencies nodes registered = .ok explicit ∧ g = addSequentialDependencies nodes none nodes explicit := by
  have hempty : Registered [] ⟨.empty, .empty, .empty⟩ := by
    refine ⟨⟨rfl, by simp, rfl, by simp [OrdMap.contains], fun _ => List.nodup_nil, fun _ => ?_,
      fun _ => rfl⟩, fun _ => rfl⟩
    exact List.nil_subset _
  unfold buildGraph at hg
  cases hreg : registerNodes nodes ⟨.empty, .empty, .empty⟩ with
  | error e => rw [hreg] at hg; cases hg
  | ok g₁ =>
    have h₁ : Registered nodes g₁ := by simpa using registerNodes_ok nodes [] _ hempty hreg
    rw [hreg] at hg
    cases hexp : addExplicitDependencies nodes g₁ with
    | error e => simp [hexp, bind, Except.bind] at hg
    | ok g₂ =>
      simp only [hexp, bind, Except.bind, pure, Except.pure, Except.ok.injEq] at hg
      exact ⟨g₁, g₂, h₁, h₁.wellFormed.ids ▸ g₁.inDegree.nodup, hexp, hg.symm⟩

theorem buildGraph_ok (hg : buildGraph nodes = .ok g) :
    WellFormed nodes g := by
  obtain ⟨g₁, g₂, h₁, hnodup, hexp, rfl⟩ := buildGraph_stages hg
  have h₂ : WellFormed nodes g₂ := addExplicitDependencies_ok hnodup nodes [] g₁ rfl h₁.wellFormed
    (fun u v hv => absurd hv (by simp [h₁.edgeless u])) hexp
  exact addSequentialDependencies_ok nodes none g₂ (by simp) (fun _ h => h) h₂

/-! ## In-degrees while nodes complete -/

/-- The predecessors of `v` that are not done yet. -/
def undone (g : DAGGraph) (done : String → Bool) (v : String) : Nat :=
  g.inDegree.keys.countP fun u => v ∈ g.dependents u ∧ done u = false

structure DegreesMatch (g : DAGGraph) (inDegree : OrdMap String Int) (done : String → Bool) : Prop where
  keys : inDegree.keys = g.inDegree.keys
  count : ∀ v, (inDegree.get? v).getD 0 = undone g done v

theorem undone_eq_zero {done : String → Bool} {v : String} (h : undone g done v = 0)
    {u : String} (hu : u ∈ g.inDegree.keys) (hv : v ∈ g.dependents u) : done u = true := by
  have := List.countP_eq_zero.mp h u hu
  simpa [hv] using this

variable {inDegree : OrdMap String Int}

theorem DegreesMatch.congr {done done' : String → Bool}
    (h : DegreesMatch g inDegree done) (hd : ∀ u ∈ g.inDegree.keys, done' u = done u) :
    DegreesMatch g inDegree done' := by
  refine ⟨h.keys, fun v => (h.count v).trans ?_⟩
  congr 1
  exact List.countP_congr fun u hu => by rw [hd u hu]

theorem lowerDegrees_spec (guard : Int → Bool) (ds : List String) : ∀ inDegree : OrdMap String Int,
    ds.Nodup → ds ⊆ inDegree.keys →
    (lowerDegrees guard inDegree ds).keys = inDegree.keys ∧
    ∀ v, ((lowerDegrees guard inDegree ds).get? v).getD 0 =
      if v ∈ ds ∧ guard ((inDegree.get? v).getD 0) then (inDegree.get? v).getD 0 - 1
      else (inDegree.get? v).getD 0 := by
  induction ds with
  | nil => exact fun _ _ _ => ⟨rfl, fun v => by simp [lowerDegrees]⟩
  | cons d ds ih =>
    intro inDegree hnodup hsub
    obtain ⟨hd, hnodup⟩ := List.nodup_cons.mp hnodup
    have hmem : d ∈ inDegree.keys := hsub List.mem_cons_self
    have hrest : ds ⊆ inDegree.keys := fun w hw => hsub (List.mem_cons_of_mem _ hw)
    simp only [lowerDegrees, List.foldl_cons] at ih ⊢
    split
    · rename_i hguard
      have hkeys := OrdMap.keys_set_of_mem hmem ((inDegree.get? d).getD 0 - 1)
      obtain ⟨h1, h2⟩ := ih _ hnodup (hkeys.symm ▸ hrest)
      refine ⟨h1.trans hkeys, fun v => ?_⟩
      rw [h2 v, OrdMap.get?_set]
      by_cases hv : v = d
      · subst hv; simp [hd, hguard]
      · simp [hv]
    · rename_i hguard
      obtain ⟨h1, h2⟩ := ih inDegree hnodup hrest
      refine ⟨h1, fun v => ?_⟩
      rw [h2 v]
      by_cases hv : v = d
      · subst hv; simp [hd, hguard]
      · simp [hv]

/-- Node `n` completes: its dependents lose one predecessor that is not done. -/
theorem DegreesMatch.complete (hg : WellFormed nodes g)
    {guard : Int → Bool} (hguard : ∀ d, 0 < d → guard d = true)
    {done : String → Bool} (h : DegreesMatch g inDegree done) {n : String} (hn : done n = false) :
    DegreesMatch g (lowerDegrees guard inDegree (g.dependents n)) (fun u => u = n || done u) := by
  obtain ⟨hkeys, hdeg⟩ := lowerDegrees_spec guard (g.dependents n) inDegree (hg.nodup n)
    (h.keys ▸ hg.closed n)
  refine ⟨hkeys.trans h.keys, fun v => ?_⟩
  rw [hdeg v, h.count v]
  by_cases hv : v ∈ g.dependents n
  · have hflip : undone g done v = undone g (fun u => u = n || done u) v + 1 :=
      countP_flip g.inDegree.keys_nodup (hg.source_mem hv) (by simp) (by simp [hv, hn])
        (fun u _ hu => by simp [hu])
    rw [if_pos ⟨hv, hguard _ (by omega)⟩, hflip]
    omega
  · have hsame : undone g (fun u => u = n || done u) v = undone g done v :=
      List.countP_congr fun u _ => by
        by_cases hu : u = n
        · subst hu; simp [hv]
        · simp [hu]
    rw [if_neg fun e => hv e.1, hsame]

theorem WellFormed.degreesMatch (h : WellFormed nodes g) :
    DegreesMatch g g.inDegree (fun _ => false) := by
  refine ⟨rfl, fun v => (h.degree_eq v).trans ?_⟩
  simp [undone]

variable {nodeStates : NodeStates}

theorem isDone_iff {u : String} :
    isDone nodeStates u = true ↔ ∃ state, nodeStates.get? u = some state ∧ state.status.done = true := by
  unfold isDone
  cases nodeStates.get? u <;> simp

theorem isDone_eq_any (nodeStates : NodeStates) (u : String) :
    isDone nodeStates u = nodeStates.entries.any fun e => e.1 = u ∧ e.2.status.done := by
  rw [Bool.eq_iff_iff, isDone_iff, List.any_eq_true]
  simp only [OrdMap.get?_eq_some, decide_eq_true_eq]
  constructor
  · rintro ⟨state, hmem, hd⟩
    exact ⟨(u, state), hmem, rfl, hd⟩
  · rintro ⟨⟨_, state⟩, hmem, rfl, hd⟩
    exact ⟨state, hmem, hd⟩

theorem updateInDegrees_fold (hg : WellFormed nodes g)
    (es : List (String × NodeState)) : ∀ (inDegree : OrdMap String Int) (done : String → Bool),
    (es.map Prod.fst).Nodup → (∀ e ∈ es, done e.1 = false) → DegreesMatch g inDegree done →
    DegreesMatch g (es.foldl (fun inDegree (nodeId, state) =>
        if state.status.done then lowerDegrees (· > 0) inDegree (g.dependents nodeId) else inDegree) inDegree)
      (fun u => done u || es.any fun e => e.1 = u ∧ e.2.status.done) := by
  induction es with
  | nil => exact fun _ _ _ _ h => h.congr (by simp)
  | cons e es ih =>
    obtain ⟨n, state⟩ := e
    intro inDegree done hnodup hdone h
    obtain ⟨he, hnodup⟩ := List.nodup_cons.mp hnodup
    have hrest : ∀ e ∈ es, done e.1 = false := fun e he => hdone e (List.mem_cons_of_mem _ he)
    rw [List.foldl_cons]
    dsimp only
    split
    · rename_i hd
      refine (ih _ (fun u => u = n || done u) hnodup (fun e' he' => ?_)
        (h.complete hg (by simp) (hdone _ List.mem_cons_self))).congr fun u _ => ?_
      · have hne : e'.1 ≠ n := fun heq => he (List.mem_map.mpr ⟨e', he', heq⟩)
        simp [hne, hrest e' he']
      · by_cases hu : u = n
        · subst hu; simp [hd]
        · simp [hu, Ne.symm hu]
    · rename_i hd
      refine (ih _ done hnodup hrest h).congr fun u _ => ?_
      simp [hd]

theorem updateInDegrees_spec (hg : WellFormed nodes g)
    (nodeStates : NodeStates) :
    DegreesMatch g (updateInDegreesForCompletedNodes nodeStates g) (isDone nodeStates) := by
  refine (updateInDegrees_fold hg nodeStates.entries g.inDegree (fun _ => false) nodeStates.nodup
    (fun _ _ => rfl) hg.degreesMatch).congr fun u _ => ?_
  simp [isDone_eq_any]

/-! ## Ready nodes and cycles -/

theorem isReady_not_done {v : String} (h : isReady nodeStates v = true) :
    isDone nodeStates v = false := by
  unfold isReady at h
  unfold isDone
  cases hs : nodeStates.get? v with
  | none => rfl
  | some state =>
    rw [hs] at h
    rcases of_decide_eq_true h with h | h <;> simp [NodeStatus.done, h]

theorem getReadyNodes_nodup (inDegree : OrdMap String Int) (nodeStates : NodeStates) :
    (getReadyNodes inDegree nodeStates).Nodup :=
  (inDegree.nodup.sublist ((List.filter_sublist).map Prod.fst))

theorem mem_getReadyNodes {v : String} :
    v ∈ getReadyNodes inDegree nodeStates ↔ inDegree.get? v = some 0 ∧ isReady nodeStates v = true := by
  simp only [getReadyNodes, List.mem_map, List.mem_filter, OrdMap.get?_eq_some]
  constructor
  · rintro ⟨⟨u, d⟩, ⟨hmem, hready⟩, rfl⟩
    obtain ⟨rfl, hr⟩ := of_decide_eq_true hready
    exact ⟨hmem, hr⟩
  · rintro ⟨hmem, hr⟩
    exact ⟨(v, 0), ⟨hmem, by simp [hr]⟩, rfl⟩

theorem hasCycle_total (hg : WellFormed nodes g) :
    ∃ b, hasCycle nodes g = some b := by
  have hclosed : ∀ u, g.dependents u ⊆ nodes.map (·.id) := fun u => hg.ids ▸ hg.closed u
  exact DepthFirst.searchFrom_total hclosed (by simp) _ _ (List.Subset.refl _)

theorem hasCycle_of_acyclic (hg : WellFormed nodes g)
    (ha : DepthFirst.Acyclic g.dependents) : hasCycle nodes g = some false := by
  obtain ⟨b, hb⟩ := hasCycle_total hg
  cases b with
  | true => exact absurd hb (DepthFirst.searchFrom_acyclic ha _ _ rfl)
  | false => exact hb

end Veryfront.Workflow
