import Veryfront.Workflow.Dsl.Namespacing
import Mathlib.Data.List.Nodup

/-!
# The context of a namespaced output

The selector of a namespaced definition reads the ids that the definition declares. What it is handed
under them is what the run has under the namespaced ones, as long as the way back is the way there: an
id that was kept must not shadow the steps that were prefixed behind it.
-/

namespace Veryfront.Workflow.Dsl

open Veryfront.Lib

variable {α ρ : Type}

/-! ## The steps of a definition -/

mutual

/-- The ids of a node and of the steps of its composites. The steps of a nested workflow are that workflow's own. -/
def nodeIds : WorkflowNode α ρ → List StepId
  | .mk id config _ => id :: configIds config

def nodesIds : List (WorkflowNode α ρ) → List StepId
  | [] => []
  | node :: nodes => nodeIds node ++ nodesIds nodes

def configIds : WorkflowNodeConfig α ρ → List StepId
  | .parallel nodes => nodesIds nodes
  | .branch thenNodes none => nodesIds thenNodes
  | .branch thenNodes (some elseNodes) => nodesIds thenNodes ++ nodesIds elseNodes
  | .loop steps => nodesIds steps
  | .subWorkflow _ => []
  | .leaf => []

end

structure Place where
  oldPrefix : StepId
  newPrefix : StepId
  id : StepId
deriving DecidableEq

namespace Place

def newId (place : Place) : StepId := rebaseId place.oldPrefix place.newPrefix place.id

def Kept (place : Place) : Prop := place.newPrefix <+: place.id

def Carried (place : Place) : Prop := place.newPrefix <+: place.id ∨ place.oldPrefix <+: place.id

instance (place : Place) : Decidable place.Kept := inferInstanceAs (Decidable (_ <+: _))
instance (place : Place) : Decidable place.Carried := inferInstanceAs (Decidable (_ ∨ _))

end Place

mutual

def nodePlaces (oldPrefix newPrefix : StepId) : WorkflowNode α ρ → List Place
  | .mk id config _ => ⟨oldPrefix, newPrefix, id⟩ :: configPlaces id (rebaseId oldPrefix newPrefix id) config

def nodesPlaces (oldPrefix newPrefix : StepId) : List (WorkflowNode α ρ) → List Place
  | [] => []
  | node :: nodes => nodePlaces oldPrefix newPrefix node ++ nodesPlaces oldPrefix newPrefix nodes

def configPlaces (oldId newId : StepId) : WorkflowNodeConfig α ρ → List Place
  | .parallel nodes => nodesPlaces (oldId ++ literal "/") (newId ++ literal "/") nodes
  | .branch thenNodes none => nodesPlaces (oldId ++ literal "/then/") (newId ++ literal "/then/") thenNodes
  | .branch thenNodes (some elseNodes) =>
    nodesPlaces (oldId ++ literal "/then/") (newId ++ literal "/then/") thenNodes ++
      nodesPlaces (oldId ++ literal "/else/") (newId ++ literal "/else/") elseNodes
  | .loop steps => nodesPlaces (oldId ++ literal "/") (newId ++ literal "/") steps
  | .subWorkflow _ => []
  | .leaf => []

end

mutual

theorem nodeIds_eq (oldPrefix newPrefix : StepId) (node : WorkflowNode α ρ) :
    nodeIds node = (nodePlaces oldPrefix newPrefix node).map Place.id := by
  cases node with
  | mk id config dependsOn => simp [nodeIds, nodePlaces, ← configIds_eq]

theorem nodesIds_eq (oldPrefix newPrefix : StepId) (nodes : List (WorkflowNode α ρ)) :
    nodesIds nodes = (nodesPlaces oldPrefix newPrefix nodes).map Place.id := by
  cases nodes with
  | nil => rfl
  | cons node nodes => simp [nodesIds, nodesPlaces, ← nodeIds_eq, ← nodesIds_eq]

theorem configIds_eq (oldId newId : StepId) (config : WorkflowNodeConfig α ρ) :
    configIds config = (configPlaces oldId newId config).map Place.id := by
  cases config with
  | parallel nodes => exact nodesIds_eq _ _ nodes
  | branch thenNodes elseNodes =>
    cases elseNodes with
    | none => exact nodesIds_eq _ _ thenNodes
    | some elseNodes => simp [configIds, configPlaces, ← nodesIds_eq]
  | loop steps => exact nodesIds_eq _ _ steps
  | subWorkflow workflow => rfl
  | leaf => rfl

end

def unchangedIds (places : List Place) : List StepId := (places.filter fun place => place.newId = place.id).map Place.id

theorem unchangedIds_append (places places' : List Place) :
    unchangedIds (places ++ places') = unchangedIds places ++ unchangedIds places' := by
  rw [unchangedIds, List.filter_append, List.map_append]
  rfl

mutual

theorem rebaseWorkflowNode_places (oldPrefix newPrefix : StepId) (kept : List StepId) (node : WorkflowNode α ρ) :
    nodeIds (rebaseWorkflowNode oldPrefix newPrefix kept node).1 = (nodePlaces oldPrefix newPrefix node).map Place.newId ∧
      (rebaseWorkflowNode oldPrefix newPrefix kept node).2 = kept ++ unchangedIds (nodePlaces oldPrefix newPrefix node) := by
  cases node with
  | mk id config dependsOn =>
    have hconfig := rebaseCompositeDescendants_places id (rebaseId oldPrefix newPrefix id) oldPrefix newPrefix
      (if rebaseId oldPrefix newPrefix id = id then kept ++ [id] else kept) config
    refine ⟨?_, ?_⟩
    · simp [rebaseWorkflowNode, nodeIds, nodePlaces, hconfig.1, Place.newId]
    · rw [rebaseWorkflowNode, hconfig.2, nodePlaces]
      by_cases hsame : rebaseId oldPrefix newPrefix id = id <;>
        simp [unchangedIds, Place.newId, hsame]

theorem rebaseWorkflowNodes_places (oldPrefix newPrefix : StepId) (kept : List StepId) (nodes : List (WorkflowNode α ρ)) :
    nodesIds (rebaseWorkflowNodes oldPrefix newPrefix kept nodes).1 =
        (nodesPlaces oldPrefix newPrefix nodes).map Place.newId ∧
      (rebaseWorkflowNodes oldPrefix newPrefix kept nodes).2 = kept ++ unchangedIds (nodesPlaces oldPrefix newPrefix nodes) := by
  cases nodes with
  | nil => simp [rebaseWorkflowNodes, nodesIds, nodesPlaces, unchangedIds]
  | cons node nodes =>
    have hnode := rebaseWorkflowNode_places oldPrefix newPrefix kept node
    have hnodes := rebaseWorkflowNodes_places oldPrefix newPrefix
      (kept ++ unchangedIds (nodePlaces oldPrefix newPrefix node)) nodes
    simp only [rebaseWorkflowNodes_cons, nodesPlaces, unchangedIds_append, List.map_append, hnode.2]
    exact ⟨by rw [nodesIds, hnode.1, hnodes.1], by rw [hnodes.2, List.append_assoc]⟩

theorem rebaseCompositeDescendants_places (oldId newId oldPrefix newPrefix : StepId) (kept : List StepId)
    (config : WorkflowNodeConfig α ρ) :
    configIds (rebaseCompositeDescendants oldId newId oldPrefix newPrefix kept config).1 =
        (configPlaces oldId newId config).map Place.newId ∧
      (rebaseCompositeDescendants oldId newId oldPrefix newPrefix kept config).2 =
        kept ++ unchangedIds (configPlaces oldId newId config) := by
  cases config with
  | parallel nodes => exact rebaseWorkflowNodes_places _ _ kept nodes
  | branch thenNodes elseNodes =>
    cases elseNodes with
    | none => exact rebaseWorkflowNodes_places _ _ kept thenNodes
    | some elseNodes =>
      have hthen := rebaseWorkflowNodes_places (oldId ++ literal "/then/") (newId ++ literal "/then/") kept thenNodes
      have helse := rebaseWorkflowNodes_places (oldId ++ literal "/else/") (newId ++ literal "/else/")
        (kept ++ unchangedIds (nodesPlaces (oldId ++ literal "/then/") (newId ++ literal "/then/") thenNodes)) elseNodes
      simp only [rebaseCompositeDescendants_branch, configPlaces, unchangedIds_append, List.map_append, hthen.2]
      exact ⟨by rw [configIds, hthen.1, helse.1], by rw [helse.2, List.append_assoc]⟩
  | loop steps => exact rebaseWorkflowNodes_places _ _ kept steps
  | subWorkflow workflow => simp [rebaseCompositeDescendants, configIds, configPlaces, unchangedIds]
  | leaf => simp [rebaseCompositeDescendants, configIds, configPlaces, unchangedIds]

end

mutual

variable {P : StepId → StepId → Prop}

theorem nodePlaces_induction {Q : Place → Prop}
    (hstep : ∀ place : Place, ∀ segment ≠ [], P place.oldPrefix place.newPrefix → Q place →
      P (place.id ++ segment) (place.newId ++ segment))
    (oldPrefix newPrefix : StepId) (node : WorkflowNode α ρ) (h0 : P oldPrefix newPrefix)
    (hpasses : ∀ place ∈ nodePlaces oldPrefix newPrefix node, Q place) :
    ∀ place ∈ nodePlaces oldPrefix newPrefix node, P place.oldPrefix place.newPrefix := by
  cases node with
  | mk id config dependsOn =>
    intro place hplace
    rw [nodePlaces] at hpasses hplace
    obtain rfl | hplace := List.mem_cons.mp hplace
    · exact h0
    · exact configPlaces_induction hstep id (rebaseId oldPrefix newPrefix id) config
        (fun segment hsegment => hstep ⟨oldPrefix, newPrefix, id⟩ segment hsegment h0 (hpasses _ List.mem_cons_self))
        (fun place hplace => hpasses place (List.mem_cons_of_mem _ hplace)) place hplace

theorem nodesPlaces_induction {Q : Place → Prop}
    (hstep : ∀ place : Place, ∀ segment ≠ [], P place.oldPrefix place.newPrefix → Q place →
      P (place.id ++ segment) (place.newId ++ segment))
    (oldPrefix newPrefix : StepId) (nodes : List (WorkflowNode α ρ)) (h0 : P oldPrefix newPrefix)
    (hpasses : ∀ place ∈ nodesPlaces oldPrefix newPrefix nodes, Q place) :
    ∀ place ∈ nodesPlaces oldPrefix newPrefix nodes, P place.oldPrefix place.newPrefix := by
  cases nodes with
  | nil => nofun
  | cons node nodes =>
    intro place hplace
    rw [nodesPlaces] at hpasses hplace
    obtain hplace | hplace := List.mem_append.mp hplace
    · exact nodePlaces_induction hstep oldPrefix newPrefix node h0
        (fun place hplace => hpasses place (List.mem_append_left _ hplace)) place hplace
    · exact nodesPlaces_induction hstep oldPrefix newPrefix nodes h0
        (fun place hplace => hpasses place (List.mem_append_right _ hplace)) place hplace

theorem configPlaces_induction {Q : Place → Prop}
    (hstep : ∀ place : Place, ∀ segment ≠ [], P place.oldPrefix place.newPrefix → Q place →
      P (place.id ++ segment) (place.newId ++ segment))
    (oldId newId : StepId) (config : WorkflowNodeConfig α ρ) (h0 : ∀ segment ≠ [], P (oldId ++ segment) (newId ++ segment))
    (hpasses : ∀ place ∈ configPlaces oldId newId config, Q place) :
    ∀ place ∈ configPlaces oldId newId config, P place.oldPrefix place.newPrefix := by
  cases config with
  | parallel nodes => exact nodesPlaces_induction hstep _ _ nodes (h0 _ (by decide)) hpasses
  | branch thenNodes elseNodes =>
    cases elseNodes with
    | none => exact nodesPlaces_induction hstep _ _ thenNodes (h0 _ (by decide)) hpasses
    | some elseNodes =>
      intro place hplace
      rw [configPlaces] at hpasses hplace
      obtain hplace | hplace := List.mem_append.mp hplace
      · exact nodesPlaces_induction hstep _ _ thenNodes (h0 _ (by decide))
          (fun place hplace => hpasses place (List.mem_append_left _ hplace)) place hplace
      · exact nodesPlaces_induction hstep _ _ elseNodes (h0 _ (by decide))
          (fun place hplace => hpasses place (List.mem_append_right _ hplace)) place hplace
  | loop steps => exact nodesPlaces_induction hstep _ _ steps (h0 _ (by decide)) hpasses
  | subWorkflow workflow => nofun
  | leaf => nofun

end

/-! ## There and back -/

namespace Place

variable {place : Place}

theorem newId_of_kept (hnew : place.newPrefix ≠ []) (h : place.Kept) : place.newId = place.id :=
  if_pos ⟨hnew, List.isPrefixOf_iff_prefix.mpr h⟩

theorem newId_of_not_kept (h : ¬ place.Kept) :
    place.newId = place.newPrefix ++ if place.oldPrefix <+: place.id then place.id.drop place.oldPrefix.length else place.id := by
  rw [newId, rebaseId, if_neg fun hk => h (List.isPrefixOf_iff_prefix.mp hk.2)]
  by_cases hold : place.oldPrefix <+: place.id
  · rw [if_pos hold]
    by_cases hempty : place.oldPrefix = []
    · simp [hempty]
    · rw [if_pos ⟨hempty, List.isPrefixOf_iff_prefix.mpr hold⟩]
  · rw [if_neg hold, if_neg fun hk => hold (List.isPrefixOf_iff_prefix.mp hk.2)]

theorem newPrefix_le_newId (hnew : place.newPrefix ≠ []) : place.newPrefix <+: place.newId := by
  by_cases h : place.Kept
  · rw [newId_of_kept hnew h]
    exact h
  · rw [newId_of_not_kept h]
    exact List.prefix_append ..

theorem newId_eq_id_iff (hnew : place.newPrefix ≠ []) : place.newId = place.id ↔ place.Kept := by
  refine ⟨fun heq => ?_, newId_of_kept hnew⟩
  have h := newPrefix_le_newId hnew
  rwa [heq] at h

theorem newId_of_carried {p : StepId} (hcarried : place.Carried) (hkept : ¬ place.Kept)
    (hmoved : place.newPrefix = place.oldPrefix ∨ place.newPrefix = p ++ place.oldPrefix) :
    place.newId = p ++ place.id := by
  have hold : place.oldPrefix <+: place.id := hcarried.resolve_left hkept
  have hnew : place.newPrefix = p ++ place.oldPrefix := by
    refine hmoved.resolve_left fun heq => hkept ?_
    rw [Kept, heq]
    exact hold
  obtain ⟨rest, hrest⟩ := hold
  rw [newId_of_not_kept hkept, if_pos ⟨rest, hrest⟩, hnew, List.append_assoc, ← hrest, List.drop_left]

end Place

section
variable (p : StepId) (definition : WorkflowDefinition α ρ)

/-- The steps, as a namespacing finds them. -/
def places : List Place := nodesPlaces [] p definition.steps

/-- What a namespaced definition hands to the selector of its output. -/
def handedContext (context : Context α) : Context α := rebaseContextKeys p [] (unchangedIds (places p definition)) context

def handedKey (key : StepId) : StepId := rebaseKey p [] (unchangedIds (places p definition)) key

/-- The steps declare different ids, every nested one carries the id of its composite, and no id that is kept stands
before a prefixed one. -/
structure Recoverable : Prop where
  carried : ∀ place ∈ places p definition, place.Carried
  distinct : (nodesIds definition.steps).Nodup
  clear : ∀ kept ∈ places p definition, kept.Kept → ∀ place ∈ places p definition, ¬ place.Kept →
    ¬ (kept.id ++ literal "/") <+: p ++ place.id

theorem handedContext_eq (steps : List (WorkflowNode α ρ)) (output : Option (Context α → ρ))
    (view : Option (Context α → Context α)) :
    handedContext p (.mk steps output view) = rebaseContextKeys p [] (rebaseWorkflowNodes [] p [] steps).2 := by
  rw [(rebaseWorkflowNodes_places [] p [] steps).2]
  rfl

theorem namespaceWorkflowDefinition_output :
    (namespaceWorkflowDefinition p definition).output =
      definition.output.map fun output context => output (handedContext p definition context) := by
  cases definition with
  | mk steps output view =>
    rw [handedContext_eq]
    rfl

theorem namespaceWorkflowDefinition_validation (context : Context α) :
    workflowOutputValidationContext (namespaceWorkflowDefinition p definition) context =
      workflowOutputValidationContext definition (handedContext p definition context) := by
  cases definition with
  | mk steps output view =>
    rw [handedContext_eq]
    rfl

theorem namespacedIds_eq :
    nodesIds (namespaceWorkflowDefinition p definition).steps = (places p definition).map Place.newId := by
  cases definition with
  | mk steps output view => exact (rebaseWorkflowNodes_places [] p [] steps).1

theorem declaredIds_eq : nodesIds definition.steps = (places p definition).map Place.id := nodesIds_eq [] p definition.steps

end

section
variable {p : StepId} {definition : WorkflowDefinition α ρ}

theorem newPrefix_ne_nil (hp : p ≠ []) {q : StepId} (h : p <+: q) : q ≠ [] := by
  rintro rfl
  exact hp (List.prefix_nil.mp h)

theorem places_prefixed (hp : p ≠ []) (place : Place) (hplace : place ∈ places p definition) :
    p <+: place.newPrefix ∧ (place.oldPrefix = [] ∨ p.length < place.newPrefix.length) := by
  refine nodesPlaces_induction (P := fun old new => p <+: new ∧ (old = [] ∨ p.length < new.length)) (Q := fun _ => True)
    (fun place segment hsegment h _ => ?_) [] p definition.steps ⟨List.prefix_refl p, .inl rfl⟩ (fun _ _ => trivial) place hplace
  have hle : p <+: place.newId := h.1.trans (Place.newPrefix_le_newId (newPrefix_ne_nil hp h.1))
  have hsegment := List.length_pos_iff.mpr hsegment
  refine ⟨hle.trans (List.prefix_append ..), .inr ?_⟩
  rw [List.length_append]
  have := hle.length_le
  omega

theorem places_moved (hp : p ≠ []) (hcarried : ∀ place ∈ places p definition, place.Carried) (place : Place)
    (hplace : place ∈ places p definition) :
    place.newPrefix ≠ [] ∧ (place.newPrefix = place.oldPrefix ∨ place.newPrefix = p ++ place.oldPrefix) := by
  refine nodesPlaces_induction (P := fun old new => new ≠ [] ∧ (new = old ∨ new = p ++ old)) (Q := Place.Carried)
    (fun place segment hsegment h hcarried => ?_) [] p definition.steps ⟨hp, .inr (List.append_nil p).symm⟩ hcarried place hplace
  refine ⟨List.append_ne_nil_of_right_ne_nil _ hsegment, ?_⟩
  by_cases hkept : place.Kept
  · exact .inl (by rw [Place.newId_of_kept h.1 hkept])
  · exact .inr (by rw [Place.newId_of_carried hcarried hkept h.2, List.append_assoc])

theorem isKept_iff (kept : List StepId) (key : StepId) :
    isKept kept key = true ↔ ∃ id ∈ kept, key = id ∨ (id ++ literal "/") <+: key := by
  simp [isKept, List.any_eq_true, List.isPrefixOf_iff_prefix]

theorem mem_unchangedIds (hp : p ≠ []) {id : StepId} :
    id ∈ unchangedIds (places p definition) ↔ ∃ place ∈ places p definition, place.Kept ∧ place.id = id := by
  simp only [unchangedIds, List.mem_map, List.mem_filter, decide_eq_true_eq]
  constructor
  · rintro ⟨place, ⟨hplace, hsame⟩, rfl⟩
    exact ⟨place, hplace, (Place.newId_eq_id_iff (newPrefix_ne_nil hp (places_prefixed hp place hplace).1)).mp hsame, rfl⟩
  · rintro ⟨place, hplace, hkept, rfl⟩
    exact ⟨place, ⟨hplace, Place.newId_of_kept (newPrefix_ne_nil hp (places_prefixed hp place hplace).1) hkept⟩, rfl⟩

theorem handedKey_of_prefixed {key : StepId} (h : p <+: key) :
    handedKey p definition key = if isKept (unchangedIds (places p definition)) key then key else key.drop p.length := by
  rw [handedKey, rebaseKey, List.isPrefixOf_iff_prefix.mpr h]
  split <;> simp_all

theorem handedKey_kept (hp : p ≠ []) {place : Place} (hplace : place ∈ places p definition) (hkept : place.Kept) :
    handedKey p definition place.newId = place.id := by
  have hnew := newPrefix_ne_nil hp (places_prefixed hp place hplace).1
  have hsame := Place.newId_of_kept hnew hkept
  have hle : p <+: place.newId := (places_prefixed hp place hplace).1.trans (Place.newPrefix_le_newId hnew)
  rw [handedKey_of_prefixed hle, if_pos, hsame]
  exact (isKept_iff ..).mpr ⟨place.id, (mem_unchangedIds hp).mpr ⟨place, hplace, hkept, rfl⟩, .inl hsame⟩

theorem carried_of_handedKey (hp : p ≠ []) {place : Place} (hplace : place ∈ places p definition)
    (h : handedKey p definition place.newId = place.id) : place.Carried := by
  by_contra hcarried
  obtain ⟨hkept, hold⟩ := not_or.mp hcarried
  obtain ⟨hle, hlong⟩ := places_prefixed hp place hplace
  have hnested : place.oldPrefix ≠ [] := by
    intro hempty
    rw [hempty] at hold
    exact hold (List.nil_prefix)
  have hnew : place.newId = place.newPrefix ++ place.id := by rw [Place.newId_of_not_kept hkept, if_neg hold]
  have hlong := hlong.resolve_left hnested
  rw [handedKey_of_prefixed (hle.trans (hnew ▸ List.prefix_append ..)), hnew] at h
  have hlength := congrArg List.length h
  split at hlength
  · rw [List.length_append] at hlength
    have := List.length_pos_iff.mpr hp
    omega
  · rw [List.length_drop, List.length_append] at hlength
    omega

section
variable (hp : p ≠ []) (hdistinct : ((places p definition).map Place.newId).Nodup)
include hp hdistinct

theorem handedKey_moved (hcarried : ∀ place ∈ places p definition, place.Carried) {place : Place}
    (hplace : place ∈ places p definition) (hkept : ¬ place.Kept) :
    handedKey p definition place.newId = place.id ↔
      ∀ kept ∈ places p definition, kept.Kept → ¬ (kept.id ++ literal "/") <+: p ++ place.id := by
  have hnew : place.newId = p ++ place.id :=
    Place.newId_of_carried (hcarried place hplace) hkept (places_moved hp hcarried place hplace).2
  rw [handedKey_of_prefixed (hnew ▸ List.prefix_append ..), hnew, List.drop_left]
  have hcovered : isKept (unchangedIds (places p definition)) (p ++ place.id) = true ↔
      ∃ kept ∈ places p definition, kept.Kept ∧ (kept.id ++ literal "/") <+: p ++ place.id := by
    rw [isKept_iff]
    constructor
    · rintro ⟨id, hid, hbehind⟩
      obtain ⟨kept, hmem, hk, rfl⟩ := (mem_unchangedIds hp).mp hid
      refine ⟨kept, hmem, hk, hbehind.resolve_left fun heq => hkept ?_⟩
      have hsame := Place.newId_of_kept (newPrefix_ne_nil hp (places_prefixed hp kept hmem).1) hk
      have : kept = place := List.inj_on_of_nodup_map hdistinct hmem hplace (by rw [hsame, hnew, heq])
      exact this ▸ hk
    · rintro ⟨kept, hmem, hk, hbehind⟩
      exact ⟨kept.id, (mem_unchangedIds hp).mpr ⟨kept, hmem, hk, rfl⟩, .inr hbehind⟩
  by_cases hc : isKept (unchangedIds (places p definition)) (p ++ place.id) = true
  · obtain ⟨kept, hmem, hk, hbehind⟩ := hcovered.mp hc
    rw [if_pos hc]
    exact ⟨fun heq => absurd (List.append_left_eq_self.mp heq) hp, fun hclear => absurd hbehind (hclear kept hmem hk)⟩
  · rw [if_neg hc]
    exact ⟨fun _ kept hmem hk hbehind => hc (hcovered.mpr ⟨kept, hmem, hk, hbehind⟩), fun _ => rfl⟩

theorem handedKey_eq_iff : Recoverable p definition ↔ (nodesIds definition.steps).Nodup ∧
    ∀ place ∈ places p definition, handedKey p definition place.newId = place.id := by
  constructor
  · intro h
    refine ⟨h.distinct, fun place hplace => ?_⟩
    by_cases hkept : place.Kept
    · exact handedKey_kept hp hplace hkept
    · exact (handedKey_moved hp hdistinct h.carried hplace hkept).mpr fun kept hmem hk => h.clear kept hmem hk place hplace hkept
  · rintro ⟨hids, hback⟩
    have hcarried : ∀ place ∈ places p definition, place.Carried := fun place hplace =>
      carried_of_handedKey hp hplace (hback place hplace)
    exact ⟨hcarried, hids, fun kept hmem hk place hplace hkept =>
      (handedKey_moved hp hdistinct hcarried hplace hkept).mp (hback place hplace) kept hmem hk⟩

end

def single (key : StepId) (value : α) : Context α := ⟨[(key, value)], List.nodup_singleton key⟩

theorem get?_single (key key' : StepId) (value : α) : (single key value).get? key' = if key = key' then some value else none := by
  unfold single OrdMap.get?
  by_cases h : key = key' <;> simp [h]

end

variable (p : StepId) (definition : WorkflowDefinition α ρ)

def HandsDeclared : Prop :=
  ∀ context : Context α, (∀ key ∈ context.keys, key ∈ nodesIds (namespaceWorkflowDefinition p definition).steps) →
    ∀ step ∈ (nodesIds definition.steps).zip (nodesIds (namespaceWorkflowDefinition p definition).steps),
      (handedContext p definition context).get? step.1 = context.get? step.2

theorem handsDeclared_iff_places : HandsDeclared p definition ↔
    ∀ context : Context α, (∀ key ∈ context.keys, ∃ place ∈ places p definition, place.newId = key) →
      ∀ place ∈ places p definition, (handedContext p definition context).get? place.id = context.get? place.newId := by
  rw [HandsDeclared, namespacedIds_eq, declaredIds_eq p, List.zip_map']
  simp only [List.mem_map, forall_exists_index, and_imp, forall_apply_eq_imp_iff₂]

/-- The output of a namespaced definition reads the run's values under the ids it declares, exactly when no step is
hidden behind an id that was kept. -/
theorem namespacedOutput_declared_iff (value : α) (hp : p ≠ [])
    (hdistinct : (nodesIds (namespaceWorkflowDefinition p definition).steps).Nodup) :
    (namespaceWorkflowDefinition p definition).output =
        definition.output.map (fun output context => output (handedContext p definition context)) ∧
      (∀ context, workflowOutputValidationContext (namespaceWorkflowDefinition p definition) context =
        workflowOutputValidationContext definition (handedContext p definition context)) ∧
      (HandsDeclared p definition ↔ Recoverable p definition) := by
  refine ⟨namespaceWorkflowDefinition_output p definition, namespaceWorkflowDefinition_validation p definition, ?_⟩
  rw [namespacedIds_eq] at hdistinct
  rw [handedKey_eq_iff hp hdistinct, handsDeclared_iff_places]
  constructor
  · intro h
    have hone : ∀ place ∈ places p definition, ∀ place' ∈ places p definition,
        (single (handedKey p definition place.newId) value).get? place'.id = (single place.newId value).get? place'.newId := by
      intro place hplace
      refine h (single place.newId value) fun key hkey => ⟨place, hplace, ?_⟩
      simpa [single, OrdMap.keys, eq_comm] using hkey
    have hback : ∀ place ∈ places p definition, handedKey p definition place.newId = place.id := by
      intro place hplace
      have hsame := hone place hplace place hplace
      rw [get?_single, get?_single, if_pos rfl] at hsame
      by_contra hne
      rw [if_neg hne] at hsame
      cases hsame
    refine ⟨?_, hback⟩
    rw [declaredIds_eq p]
    refine List.Nodup.map_on (fun place hplace place' hplace' hid => ?_) (List.Nodup.of_map _ hdistinct)
    have hother := hone place hplace place' hplace'
    rw [get?_single, get?_single, if_pos ((hback place hplace).trans hid)] at hother
    by_contra hne
    have hids : place.newId ≠ place'.newId := fun heq => hne (List.inj_on_of_nodup_map hdistinct hplace hplace' heq)
    rw [if_neg hids] at hother
    cases hother
  · rintro ⟨hids, hback⟩ context hkeys place hplace
    rw [declaredIds_eq p] at hids
    rw [← hback place hplace]
    refine OrdMap.get?_mapKeys context _ fun key hkey hsame => ?_
    obtain ⟨place', hplace', rfl⟩ := hkeys key hkey
    have hid : place'.id = place.id := (hback place' hplace').symm.trans (hsame.trans (hback place hplace))
    rw [List.inj_on_of_nodup_map hids hplace' hplace hid]

/-! ## A step behind a kept one -/

def leafStep (id : String) : WorkflowNode α ρ := .mk (literal id) .leaf none

/-- The first step carries the prefix already, and the second stands behind it once it is prefixed. -/
def hiddenStep : WorkflowDefinition Nat Nat := .mk [leafStep "p/a", leafStep "a/b"] none none

theorem namespacedOutput_hidden_step :
    (nodesIds (namespaceWorkflowDefinition (literal "p/") hiddenStep).steps).Nodup ∧
      nodesIds (namespaceWorkflowDefinition (literal "p/") hiddenStep).steps = [literal "p/a", literal "p/a/b"] ∧
      (handedContext (literal "p/") hiddenStep (single (literal "p/a/b") 1)).get? (literal "a/b") = none ∧
      ¬ HandsDeclared (literal "p/") hiddenStep := by
  refine ⟨by decide, by decide, by decide, fun h => ?_⟩
  have hhidden := h (single (literal "p/a/b") 1) (by decide) (literal "a/b", literal "p/a/b") (by decide)
  revert hhidden
  decide

/-- A step under the prefix, and a composite with its own. -/
def openSteps : WorkflowDefinition Nat Nat :=
  .mk [leafStep "p/a", .mk (literal "b") (.parallel [leafStep "b/c"]) none] none none

theorem namespacedOutput_declared_iff_open :
    HandsDeclared (literal "p/") openSteps ↔ Recoverable (literal "p/") openSteps :=
  (namespacedOutput_declared_iff (literal "p/") openSteps 0 (by decide) (by decide)).2.2

end Veryfront.Workflow.Dsl
