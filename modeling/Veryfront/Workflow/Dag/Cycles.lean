import Mathlib.Algebra.GroupWithZero.Nat
import Veryfront.Workflow.Dag.Graph

/-!
# A graph is cyclic only where its declared dependencies are

The edges between neighbours in the list come after the declared ones, and each goes into a node
that nothing leaves yet. So they close no cycle, and the search for one answers for the
declared dependencies alone.
-/

namespace Veryfront.Workflow

open Veryfront.Lib DepthFirst

/-- Node `target` declares that it waits for node `source`. -/
def DependsOn (nodes : List WorkflowNode) (source target : String) : Prop :=
  ∃ node ∈ nodes, node.id = target ∧ source ∈ node.dependsOn.getD []

/-- How often a node stands as a successor in the adjacency lists. -/
def DAGGraph.occurrences (g : DAGGraph) (v : String) : Nat := (g.adjList.entries.map fun e => e.2.count v).sum

variable {nodes : List WorkflowNode} {g g' : DAGGraph}

/-! ## In-degrees -/

theorem WellFormed.occurrences_eq (h : WellFormed nodes g) (v : String) :
    g.occurrences v = g.adjList.keys.countP (v ∈ g.dependents ·) := by
  have hcount : ∀ e ∈ g.adjList.entries, e.2.count v = if v ∈ g.dependents e.1 then 1 else 0 := by
    rintro ⟨u, dependents⟩ he
    have hu : g.dependents u = dependents := by
      rw [DAGGraph.dependents, (OrdMap.get?_eq_some _ _ _).mpr he]
      rfl
    rw [hu, List.Nodup.count (hu ▸ h.nodup u)]
  rw [DAGGraph.occurrences, List.map_congr_left hcount, OrdMap.keys, List.countP_map]
  induction g.adjList.entries with
  | nil => rfl
  | cons e es ih => rw [List.map_cons, List.sum_cons, List.countP_cons, ih, Nat.add_comm]; simp

theorem WellFormed.degree_occurrences (h : WellFormed nodes g) (v : String) : g.degree v = g.occurrences v := by
  rw [h.degree_eq v, h.occurrences_eq v, List.countP_eq_length_filter, List.countP_eq_length_filter]
  refine congrArg _ (List.Perm.length_eq ?_)
  refine (List.perm_ext_iff_of_nodup (g.inDegree.keys_nodup.filter _) (g.adjList.keys_nodup.filter _)).mpr fun u => ?_
  rw [List.mem_filter, List.mem_filter]
  refine and_congr_left fun hu => ⟨fun _ => ?_, fun hkey => h.known u ((OrdMap.contains_iff _ _).mpr hkey)⟩
  by_contra hunknown
  rw [← OrdMap.contains_iff] at hunknown
  rw [g.dependents_eq_nil hunknown] at hu
  exact List.not_mem_nil (of_decide_eq_true hu)

/-! ## The declared edges -/

theorem mem_dependents_pushDependent (g : DAGGraph) (source target u v : String) :
    v ∈ (g.pushDependent source target).dependents u ↔ v ∈ g.dependents u ∨ (u = source ∧ v = target) := by
  rw [DAGGraph.dependents_pushDependent]
  split
  · rename_i hu
    rw [List.mem_append, List.mem_singleton, hu]
    simp
  · rename_i hu
    simp [hu]

theorem addDependenciesOf_edges {nodeId : String} (deps : List String) : ∀ (seen : List String) (g : DAGGraph),
    addDependenciesOf nodeId seen deps g = .ok g' →
    ∀ u v, v ∈ g'.dependents u ↔ v ∈ g.dependents u ∨ (u ∈ deps ∧ v = nodeId) := by
  induction deps with
  | nil =>
    intro seen g hg u v
    obtain rfl := Except.ok.inj hg
    simp
  | cons dep rest ih =>
    intro seen g hg u v
    unfold addDependenciesOf at hg
    split at hg
    · cases hg
    split at hg
    · cases hg
    rw [ih _ _ hg u v, mem_dependents_pushDependent, List.mem_cons, or_assoc, or_and_right]

theorem dependsOn_cons (node : WorkflowNode) (rest : List WorkflowNode) (u v : String) :
    DependsOn (node :: rest) u v ↔ (u ∈ node.dependsOn.getD [] ∧ v = node.id) ∨ DependsOn rest u v := by
  simp only [DependsOn, List.mem_cons, exists_eq_or_imp]
  rw [and_comm, eq_comm]

theorem addExplicitDependencies_edges (rest : List WorkflowNode) : ∀ g : DAGGraph,
    addExplicitDependencies rest g = .ok g' →
    ∀ u v, v ∈ g'.dependents u ↔ v ∈ g.dependents u ∨ DependsOn rest u v := by
  induction rest with
  | nil =>
    intro g hg u v
    obtain rfl := Except.ok.inj hg
    simp [DependsOn]
  | cons node rest ih =>
    intro g hg u v
    unfold addExplicitDependencies at hg
    cases hdeps : addDependenciesOf node.id [] (node.dependsOn.getD []) g with
    | error e => rw [hdeps] at hg; cases hg
    | ok g₁ =>
      rw [hdeps] at hg
      rw [ih g₁ hg u v, addDependenciesOf_edges _ _ _ hdeps u v, dependsOn_cons, or_assoc]

/-! ## The edges between neighbours -/

theorem dependsOn_hasAnyDependents {u v : String} (h : DependsOn nodes u v) : hasAnyDependents nodes u = true := by
  obtain ⟨node, hmem, -, hdep⟩ := h
  exact List.any_eq_true.mpr ⟨node, hmem, List.contains_iff_mem.mpr hdep⟩

/-- The graph once the scan is past the nodes `earlier`: the edges it added leave those. -/
structure Sequenced (nodes : List WorkflowNode) (earlier : List String) (g : DAGGraph) : Prop where
  declared : ∀ u v, DependsOn nodes u v → v ∈ g.dependents u
  source : ∀ u v, v ∈ g.dependents u → DependsOn nodes u v ∨ u ∈ earlier
  acyclic : (∀ v, ¬ Relation.TransGen (DependsOn nodes) v v) → Acyclic g.dependents

theorem Sequenced.later {earlier later : List String} (h : Sequenced nodes earlier g) (hsub : earlier ⊆ later) :
    Sequenced nodes later g :=
  ⟨h.declared, fun u v huv => (h.source u v huv).imp_right fun hu => hsub hu, h.acyclic⟩

/-- The node that takes the edge has no edge out: none is declared, and the scan is not past it. -/
theorem Sequenced.push {earlier : List String} {prev nodeId : String} (h : Sequenced nodes earlier g)
    (hprev : prev ∈ earlier) (hnode : nodeId ∉ earlier) (hfree : hasAnyDependents nodes nodeId = false) :
    Sequenced nodes earlier (g.pushDependent prev nodeId) := by
  have hne : prev ≠ nodeId := fun heq => hnode (heq ▸ hprev)
  have hsink : (g.pushDependent prev nodeId).dependents nodeId = [] := by
    rw [DAGGraph.dependents_pushDependent, if_neg (Ne.symm hne)]
    refine List.eq_nil_iff_forall_not_mem.mpr fun v hv => ?_
    rcases h.source nodeId v hv with hdeclared | hpast
    · rw [dependsOn_hasAnyDependents hdeclared] at hfree
      cases hfree
    · exact hnode hpast
  have hedges (u v : String) := mem_dependents_pushDependent g prev nodeId u v
  refine ⟨fun u v huv => (hedges u v).mpr (.inl (h.declared u v huv)), fun u v huv => ?_, fun ha => ?_⟩
  · rcases (hedges u v).mp huv with hold | ⟨rfl, -⟩
    · exact h.source u v hold
    · exact .inr hprev
  · exact acyclic_of_sink (h.acyclic ha) hne hsink fun u v => (hedges u v).mp

theorem addSequentialDependencies_sequenced (rest : List WorkflowNode) :
    ∀ (earlier : List WorkflowNode) (prev : Option String) (g : DAGGraph), (nodes.map (·.id)).Nodup → nodes = earlier ++ rest → (∀ p ∈ prev, p ∈ earlier.map (·.id)) →
    Sequenced nodes (earlier.map (·.id)) g →
    Sequenced nodes (nodes.map (·.id)) (addSequentialDependencies nodes prev rest g) := by
  induction rest with
  | nil =>
    intro earlier prev g _ hsplit _ h
    rw [hsplit, List.append_nil] at *
    exact h
  | cons node rest ih =>
    intro earlier prev g hnodup hsplit hprev h
    have hnode : node.id ∉ earlier.map (·.id) := by
      rw [hsplit, List.map_append, List.nodup_append] at hnodup
      exact fun hm => hnodup.2.2 _ hm _ (List.mem_map_of_mem List.mem_cons_self) rfl
    have hsub : earlier.map (·.id) ⊆ (earlier ++ [node]).map (·.id) := by simp
    unfold addSequentialDependencies
    refine ih (earlier ++ [node]) (some node.id) _ hnodup (by simp [hsplit]) (by simp) (Sequenced.later ?_ hsub)
    split
    · exact h
    · rename_i p
      repeat' split
      · exact h
      · exact h
      · exact h
      · rename_i hfree
        exact h.push (hprev p rfl) hnode (Bool.eq_false_iff.mpr fun hany => hfree (.inr hany))

theorem buildGraph_sequenced (hg : buildGraph nodes = .ok g) : Sequenced nodes (nodes.map (·.id)) g := by
  obtain ⟨registered, explicit, hregistered, hnodup, hexp, rfl⟩ := buildGraph_stages hg
  have hedges (u v : String) : v ∈ explicit.dependents u ↔ DependsOn nodes u v := by
    rw [addExplicitDependencies_edges nodes registered hexp u v, hregistered.edgeless u]
    simp
  have hrel : (fun u w => w ∈ explicit.dependents u) = DependsOn nodes := by
    funext u w
    exact propext (hedges u w)
  refine addSequentialDependencies_sequenced nodes [] none explicit hnodup rfl (by simp) ⟨?_, ?_, fun ha => ?_⟩
  · exact fun u v => (hedges u v).mpr
  · exact fun u v huv => .inl ((hedges u v).mp huv)
  · intro v hv
    rw [hrel] at hv
    exact ha v hv

theorem buildGraph_acyclic (hg : buildGraph nodes = .ok g) :
    Acyclic g.dependents ↔ ∀ v, ¬ Relation.TransGen (DependsOn nodes) v v := by
  have h := buildGraph_sequenced hg
  exact ⟨fun ha v hv => ha v (Relation.TransGen.mono h.declared _ _ hv), h.acyclic⟩

/-! ## The search for a cycle -/

theorem hasCycle_acyclic (hg : WellFormed nodes g) (h : hasCycle nodes g = some false) : Acyclic g.dependents :=
  acyclic_of_searchFrom (fun _ _ hw => hg.ids ▸ hg.source_mem hw) h

theorem buildGraph_cycles (hg : buildGraph nodes = .ok g) :
    (∀ node ∈ nodes, g.inDegree.get? node.id = some (g.occurrences node.id : Int)) ∧
    ((∃ v, Relation.TransGen (fun u w => w ∈ g.dependents u) v v) ↔ ∃ v, Relation.TransGen (DependsOn nodes) v v) ∧
    ∃ b, hasCycle nodes g = some b ∧ (b = true ↔ ∃ v, Relation.TransGen (DependsOn nodes) v v) := by
  have h := buildGraph_ok hg
  have hcyclic : (∃ v, Relation.TransGen (fun u w => w ∈ g.dependents u) v v) ↔
      ∃ v, Relation.TransGen (DependsOn nodes) v v := by
    have hacyclic := buildGraph_acyclic hg
    rw [Acyclic, ← not_exists, ← not_exists] at hacyclic
    exact not_iff_not.mp hacyclic
  refine ⟨fun node hnode => ?_, hcyclic, ?_⟩
  · have hkey : node.id ∈ g.inDegree.keys := h.ids ▸ List.mem_map_of_mem hnode
    rw [← OrdMap.contains_iff, OrdMap.contains] at hkey
    obtain ⟨degree, hdegree⟩ := Option.isSome_iff_exists.mp hkey
    rw [hdegree, ← h.degree_occurrences, DAGGraph.degree, hdegree]
    rfl
  · obtain ⟨b, hb⟩ := hasCycle_total h
    refine ⟨b, hb, ?_⟩
    rw [← hcyclic]
    cases b with
    | false =>
      have hnone := hasCycle_acyclic h hb
      refine ⟨fun hfalse => absurd hfalse Bool.false_ne_true, ?_⟩
      rintro ⟨v, hv⟩
      exact absurd hv (hnone v)
    | true =>
      refine ⟨fun _ => ?_, fun _ => rfl⟩
      by_contra hnone
      have hacyclic : Acyclic g.dependents := fun v hv => hnone ⟨v, hv⟩
      rw [hasCycle_of_acyclic h hacyclic] at hb
      cases hb

/-- Two neighbours in sequence, and a third node that closes a cycle with a fourth. -/
def ringNodes : List WorkflowNode :=
  [{ id := "a", config := .step }, { id := "b", config := .step },
    { id := "c", dependsOn := some ["d"], config := .step }, { id := "d", dependsOn := some ["c"], config := .step }]

theorem buildGraph_cycles_ring : ∃ g, buildGraph ringNodes = .ok g ∧ hasCycle ringNodes g = some true := by
  cases hg : buildGraph ringNodes with
  | error e =>
    have hok : (buildGraph ringNodes).toBool = true := by decide
    rw [hg] at hok
    cases hok
  | ok g =>
    obtain ⟨-, -, b, hb, hiff⟩ := buildGraph_cycles hg
    have hc : DependsOn ringNodes "d" "c" :=
      ⟨{ id := "c", dependsOn := some ["d"], config := .step }, by simp [ringNodes], rfl, List.mem_singleton.mpr rfl⟩
    have hd : DependsOn ringNodes "c" "d" :=
      ⟨{ id := "d", dependsOn := some ["c"], config := .step }, by simp [ringNodes], rfl, List.mem_singleton.mpr rfl⟩
    have htrue : b = true := hiff.mpr ⟨"c", .tail (.single hd) hc⟩
    exact ⟨g, rfl, htrue ▸ hb⟩

end Veryfront.Workflow
