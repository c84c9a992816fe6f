import Veryfront.Workflow.Dag.Graph

/-!
# Choosing a batch

The nodes at the front of the ready queue run together, as far as their children can share one map
of node states. A node whose child ids are not known yet runs apart from the other nodes that
produce child states. Two nodes that declare one child id do not run together. Whatever is put off
goes back to the front of the queue, so that a choice only splits the queue in two.
-/

namespace Veryfront.Workflow

open Veryfront.Lib

def nodeMayProduceSharedChildState (node : WorkflowNode) : Bool :=
  match node.config.type with
  | .subWorkflow | .parallel | .branch | .loop | .map => true
  | .step | .wait => false

mutual

def nodeHasUnknownSharedChildReservations : WorkflowNode → Bool
  | { id, dependsOn, skip, maxAttempts, config } =>
    if skip then nodeMayProduceSharedChildState { id, dependsOn, skip, maxAttempts, config }
    else configHasUnknownReservations config

def configHasUnknownReservations : NodeConfig → Bool
  | .step => false
  | .wait => false
  | .parallel nodes => hasUnknownChildReservations nodes
  | .branch then_ else_ => hasUnknownChildReservations then_ || hasUnknownChildReservations else_
  | .loop none => true
  | .loop (some steps) => hasUnknownChildReservations steps
  | .map none => true
  | .map (some wrapperNodes) => hasUnknownChildReservations wrapperNodes
  | .subWorkflow none => true
  | .subWorkflow (some steps) => hasUnknownChildReservations steps

def hasUnknownChildReservations : List WorkflowNode → Bool
  | [] => false
  | child :: rest => nodeHasUnknownSharedChildReservations child || hasUnknownChildReservations rest

end

mutual

/-- A branch reserves the child ids of both arms and runs only one of them. -/
def nodeHasConditionalSharedChildReservations : WorkflowNode → Bool
  | { skip, config, .. } => if skip then false else configHasConditionalReservations config

def configHasConditionalReservations : NodeConfig → Bool
  | .step => false
  | .wait => false
  | .parallel nodes => hasConditionalChildReservations nodes
  | .branch _ _ => true
  | .loop none => false
  | .loop (some steps) => hasConditionalChildReservations steps
  | .map none => false
  | .map (some wrapperNodes) => hasConditionalChildReservations wrapperNodes
  | .subWorkflow none => false
  | .subWorkflow (some steps) => hasConditionalChildReservations steps

def hasConditionalChildReservations : List WorkflowNode → Bool
  | [] => false
  | child :: rest =>
    nodeHasConditionalSharedChildReservations child || hasConditionalChildReservations rest

end

/-- The child ids reserved so far by the sub-workflow node of this id in the running graph. -/
abbrev SubWorkflowReservations := String → Option (List String)

mutual

def collectNodeSharedChildIds (reservations : SubWorkflowReservations) : WorkflowNode → List String
  | { id, dependsOn, skip, maxAttempts, config } =>
    if skip then []
    else match config with
      | .step => []
      | .wait => []
      | .parallel nodes => appendChildIds reservations nodes
      | .branch then_ else_ => appendChildIds reservations then_ ++ appendChildIds reservations else_
      | .loop none => []
      | .loop (some steps) => appendChildIds reservations steps
      | .map none => []
      | .map (some wrapperNodes) => appendChildIds reservations wrapperNodes
      | .subWorkflow steps =>
        if nodeHasUnknownSharedChildReservations
            { id, dependsOn, skip, maxAttempts, config := .subWorkflow steps } then []
        else (reservations id).getD []

def appendChildIds (reservations : SubWorkflowReservations) : List WorkflowNode → List String
  | [] => []
  | child :: rest =>
    child.id :: collectNodeSharedChildIds reservations child ++ appendChildIds reservations rest

end

structure ChildCollision where
  childId : String
  firstNodeId : String
  secondNodeId : String
deriving DecidableEq, Repr

def reserveChildIds (nodeId : String) :
    List String → OrdMap String String → Except ChildCollision (OrdMap String String)
  | [], reservedBy => .ok reservedBy
  | childId :: rest, reservedBy =>
    match reservedBy.get? childId with
    | none => reserveChildIds nodeId rest (reservedBy.set childId nodeId)
    | some firstNodeId =>
      if firstNodeId = "" then reserveChildIds nodeId rest (reservedBy.set childId nodeId)
      else .error ⟨childId, firstNodeId, nodeId⟩

def findCollisionFrom (g : DAGGraph) (reservations : SubWorkflowReservations) :
    List String → OrdMap String String → Option ChildCollision
  | [], _ => none
  | nodeId :: rest, reservedBy =>
    match g.nodeMap.get? nodeId with
    | none => findCollisionFrom g reservations rest reservedBy
    | some node =>
      match reserveChildIds node.id (collectNodeSharedChildIds reservations node).eraseDups reservedBy with
      | .error collision => some collision
      | .ok reservedBy => findCollisionFrom g reservations rest reservedBy

def findConcurrentChildStateCollision (g : DAGGraph) (reservations : SubWorkflowReservations)
    (batch : List String) : Option ChildCollision :=
  findCollisionFrom g reservations batch .empty

/-! ## The choice -/

/-- The nodes that run next and the queue they leave behind. -/
structure Selection where
  batch : List String
  ready : List String

/-- Puts the nodes of `deferred` back to the front of the queue. -/
def Selection.defer (s : Selection) (deferred : List String) : Selection :=
  ⟨s.batch.filter (· ∉ deferred), s.batch.filter (· ∈ deferred) ++ s.ready⟩

def mayProduce (g : DAGGraph) (nodeId : String) : Bool :=
  (g.nodeMap.get? nodeId).any nodeMayProduceSharedChildState

def hasUnknown (g : DAGGraph) (nodeId : String) : Bool :=
  (g.nodeMap.get? nodeId).any nodeHasUnknownSharedChildReservations

/-- Keeps apart the nodes whose child ids may turn out to be shared. A node that resumes a parked
decision goes before the others. -/
def serializeProducers (g : DAGGraph) (resumableCompositeIds : List String) (s : Selection) : Selection :=
  let unresolvedNodeIds := s.batch.filter fun nodeId => mayProduce g nodeId && hasUnknown g nodeId
  let resolvedProducerIds := s.batch.filter fun nodeId => mayProduce g nodeId && !hasUnknown g nodeId
  let resumedProducerIds :=
    s.batch.filter fun nodeId => nodeId ∈ resumableCompositeIds && mayProduce g nodeId
  if resumedProducerIds.length > 0 ∧
      resumedProducerIds.length < unresolvedNodeIds.length + resolvedProducerIds.length then
    s.defer ((unresolvedNodeIds ++ resolvedProducerIds).filter (· ∉ resumedProducerIds))
  else if unresolvedNodeIds.length > 0 ∧
      unresolvedNodeIds.length + resolvedProducerIds.length > 1 then
    s.defer (unresolvedNodeIds.drop 1 ++ resolvedProducerIds)
  else s

def conditionalNodeId (g : DAGGraph) (collision : ChildCollision) : Option String :=
  ([collision.firstNodeId, collision.secondNodeId].filterMap g.nodeMap.get?).find?
    nodeHasConditionalSharedChildReservations |>.map (·.id)

def selectBatch (g : DAGGraph) (reservations : SubWorkflowReservations)
    (resumableCompositeIds : List String) (s : Selection) : Except ChildCollision Selection :=
  let s := serializeProducers g resumableCompositeIds s
  match findConcurrentChildStateCollision g reservations s.batch with
  | none => .ok s
  | some collision =>
    match conditionalNodeId g collision with
    | none => .error collision
    | some conditional =>
      let s := s.defer (s.batch.filter fun nodeId => nodeId ≠ conditional && mayProduce g nodeId)
      match findConcurrentChildStateCollision g reservations s.batch with
      | none => .ok s
      | some collision => .error collision

/-! ## What a choice does -/

theorem Selection.defer_perm (s : Selection) (deferred : List String) :
    ((s.defer deferred).batch ++ (s.defer deferred).ready).Perm (s.batch ++ s.ready) := by
  have hsplit := List.filter_append_perm (· ∉ deferred) s.batch
  simp only [decide_not, Bool.not_not] at hsplit
  unfold Selection.defer
  rw [← List.append_assoc]
  simpa using hsplit.append_right s.ready

theorem Selection.mem_defer {s : Selection} {deferred : List String} {v : String} (hv : v ∈ s.batch)
    (hd : v ∉ deferred) : v ∈ (s.defer deferred).batch :=
  List.mem_filter.mpr ⟨hv, by simpa using hd⟩

theorem serializeProducers_perm (g : DAGGraph) (resumable : List String) (s : Selection) :
    ((serializeProducers g resumable s).batch ++ (serializeProducers g resumable s).ready).Perm
      (s.batch ++ s.ready) := by
  unfold serializeProducers
  dsimp only
  split
  · exact s.defer_perm _
  split
  · exact s.defer_perm _
  · exact .refl _

theorem serializeProducers_ne_nil (g : DAGGraph) (resumable : List String) {s : Selection}
    (hn : s.batch.Nodup) (h : s.batch ≠ []) : (serializeProducers g resumable s).batch ≠ [] := by
  unfold serializeProducers
  dsimp only
  split
  · -- a resumed node stays
    rename_i hr
    obtain ⟨v, hv⟩ := List.exists_mem_of_length_pos hr.1
    refine List.ne_nil_of_mem (Selection.mem_defer (List.mem_filter.mp hv).1 fun hd => ?_)
    simpa using (of_decide_eq_true (List.mem_filter.mp hd).2) hv
  split
  · -- the first node with unknown children stays
    rename_i hu
    obtain ⟨v, rest, hvs⟩ := List.exists_cons_of_length_pos hu.1
    have hv : v ∈ s.batch.filter fun w => mayProduce g w && hasUnknown g w := hvs ▸ List.mem_cons_self
    have hrest : v ∉ rest := (List.nodup_cons.mp (hvs ▸ hn.filter _)).1
    refine List.ne_nil_of_mem (Selection.mem_defer (List.mem_filter.mp hv).1 fun hd => ?_)
    rw [hvs, List.drop_one, List.tail_cons] at hd
    rcases List.mem_append.mp hd with hd | hd
    · exact hrest hd
    · have h1 := (List.mem_filter.mp hv).2
      have h2 := (List.mem_filter.mp hd).2
      simp_all
  · exact h

def ReservedBy (batch : List String) (reservedBy : OrdMap String String) : Prop :=
  ∀ childId nodeId, reservedBy.get? childId = some nodeId → nodeId ∈ batch

variable {batch : List String}

theorem ReservedBy.set {reservedBy : OrdMap String String}
    (h : ReservedBy batch reservedBy) {nodeId : String} (hn : nodeId ∈ batch) (childId : String) :
    ReservedBy batch (reservedBy.set childId nodeId) := by
  intro c v hv
  rw [OrdMap.get?_set] at hv
  split at hv
  · exact Option.some.inj hv ▸ hn
  · exact h c v hv

def ChildCollision.Within (batch : List String) (collision : ChildCollision) : Prop :=
  collision.firstNodeId ∈ batch ∧ collision.secondNodeId ∈ batch

theorem reserveChildIds_within {nodeId : String} (hn : nodeId ∈ batch)
    (childIds : List String) : ∀ reservedBy, ReservedBy batch reservedBy →
      (∀ r, reserveChildIds nodeId childIds reservedBy = .ok r → ReservedBy batch r) ∧
      ∀ c, reserveChildIds nodeId childIds reservedBy = .error c → c.Within batch := by
  induction childIds with
  | nil =>
    refine fun reservedBy h => ⟨fun r hr => ?_, nofun⟩
    exact Except.ok.inj hr ▸ h
  | cons childId rest ih =>
    intro reservedBy h
    unfold reserveChildIds
    split
    · exact ih _ (h.set hn childId)
    · rename_i first hfirst
      split
      · exact ih _ (h.set hn childId)
      · refine ⟨nofun, fun c hc => ?_⟩
        obtain rfl := Except.error.inj hc
        exact ⟨h _ _ hfirst, hn⟩

theorem findCollision_within {g : DAGGraph} (hid : ∀ v node, g.nodeMap.get? v = some node → node.id = v)
    (reservations : SubWorkflowReservations) (rest : List String) :
    ∀ reservedBy, rest ⊆ batch → ReservedBy batch reservedBy →
      ∀ c, findCollisionFrom g reservations rest reservedBy = some c → c.Within batch := by
  induction rest with
  | nil =>
    intro reservedBy _ _ c hc
    cases hc
  | cons nodeId rest ih =>
    intro reservedBy hsub h c hc
    have hrest : rest ⊆ batch := fun w hw => hsub (List.mem_cons_of_mem _ hw)
    unfold findCollisionFrom at hc
    split at hc
    · exact ih reservedBy hrest h c hc
    · rename_i node hnode
      have hn : node.id ∈ batch := hid nodeId node hnode ▸ hsub List.mem_cons_self
      obtain ⟨hok, herror⟩ := reserveChildIds_within hn
        (collectNodeSharedChildIds reservations node).eraseDups reservedBy h
      split at hc
      · rename_i collision hcollision
        exact Option.some.inj hc ▸ herror collision hcollision
      · rename_i reserved hreserved
        exact ih reserved hrest (hok reserved hreserved) c hc

theorem conditionalNodeId_mem {g : DAGGraph} (hid : ∀ v node, g.nodeMap.get? v = some node → node.id = v) {c : ChildCollision}
    (hc : c.Within batch) {v : String}
    (hv : conditionalNodeId g c = some v) : v ∈ batch := by
  obtain ⟨node, hnode, rfl⟩ := Option.map_eq_some_iff.mp hv
  obtain ⟨w, hw, hget⟩ := List.mem_filterMap.mp (List.mem_of_find?_eq_some hnode)
  rw [hid w node hget]
  rcases List.mem_cons.mp hw with rfl | hw
  · exact hc.1
  · exact List.mem_singleton.mp hw ▸ hc.2

theorem selectBatch_ok {g : DAGGraph} (hid : ∀ v node, g.nodeMap.get? v = some node → node.id = v)
    {reservations : SubWorkflowReservations} {resumable : List String} {s s' : Selection}
    (hn : s.batch.Nodup) (hne : s.batch ≠ []) (h : selectBatch g reservations resumable s = .ok s') :
    (s'.batch ++ s'.ready).Perm (s.batch ++ s.ready) ∧ s'.batch ≠ [] := by
  have hperm := serializeProducers_perm g resumable s
  have hnil := serializeProducers_ne_nil g resumable hn hne
  unfold selectBatch at h
  dsimp only at h
  split at h
  · obtain rfl := Except.ok.inj h
    exact ⟨hperm, hnil⟩
  rename_i c hc
  split at h
  · cases h
  rename_i v hv
  split at h
  · obtain rfl := Except.ok.inj h
    refine ⟨(Selection.defer_perm _ _).trans hperm, ?_⟩
    have hwithin := findCollision_within hid reservations
      (serializeProducers g resumable s).batch .empty (List.Subset.refl _) (fun c v hcv => by simp at hcv) c hc
    refine List.ne_nil_of_mem (Selection.mem_defer (conditionalNodeId_mem hid hwithin hv) fun hd => ?_)
    simpa using (List.mem_filter.mp hd).2
  · cases h

end Veryfront.Workflow
