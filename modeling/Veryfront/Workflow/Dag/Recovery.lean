import Veryfront.Workflow.Dag.Executor

/-!
# Which running nodes are run again

Before its first batch the executor looks at the nodes that are recorded as running and have no
undone predecessor. A composite that the run waited for is entered again, a parked wait is left
alone, and every other node lost its worker: it is queued once more while its attempts allow it.
-/

namespace Veryfront.Workflow

open Veryfront.Lib

/-- A node that the recovery pass finds recorded as running, with no undone predecessor. -/
structure Interrupted (g : DAGGraph) (nodeStates : NodeStates) (v : String) (state : NodeState)
    (node : WorkflowNode) : Prop where
  recorded : nodeStates.get? v = some state
  declared : g.nodeMap.get? v = some node
  running : state.status = .running

variable {g : DAGGraph} {nodeStates : NodeStates} {resumingWait : Bool}

theorem Interrupted.not_done {v : String} {state : NodeState} {node : WorkflowNode}
    (h : Interrupted g nodeStates v state node) : isDone nodeStates v = false := by
  rw [isDone, h.recorded]
  simp [h.running, NodeStatus.done]

theorem recoverNode_cases (resumingWait : Bool) (g : DAGGraph) (nodeStates : NodeStates) (q : RecoveryQueue) (v : String) (degree : Int) :
    (recoverNode resumingWait g nodeStates q v degree = q ∧
      ∀ state node, degree = 0 → v ∉ q.ready → Interrupted g nodeStates v state node →
        node.config.type = .wait) ∨
    (degree = 0 ∧ v ∉ q.ready ∧ ∃ state node, Interrupted g nodeStates v state node ∧
      (resumingWait = true ∧ isResumableComposite node.config.type = true ∧
        recoverNode resumingWait g nodeStates q v degree =
          { q with resumableComposites := q.resumableComposites ++ [v] } ∨
      node.maxAttempts.getD 1 < state.attempt ∧
        recoverNode resumingWait g nodeStates q v degree =
          { q with exhausted := q.exhausted ++ [⟨v, state.attempt, node.maxAttempts.getD 1⟩] } ∨
      state.attempt ≤ node.maxAttempts.getD 1 ∧
        recoverNode resumingWait g nodeStates q v degree =
          { q with recoveryQueued := q.recoveryQueued ++ [v], ready := q.ready ++ [v] })) := by
  unfold recoverNode
  split
  · rename_i hskip
    exact .inl ⟨rfl, fun _ _ hd hq _ => absurd hskip (by simp [hd, hq])⟩
  rename_i hskip
  obtain ⟨hd, hq⟩ := not_or.mp hskip
  split
  · rename_i state node hs hn
    split
    · rename_i hrun
      refine .inl ⟨rfl, fun state' _ _ _ h => absurd ?_ hrun⟩
      rw [← Option.some.inj (h.recorded.symm.trans hs)]
      exact h.running
    rename_i hrun
    have hi : Interrupted g nodeStates v state node := ⟨hs, hn, not_not.mp hrun⟩
    split
    · rename_i hc
      obtain ⟨h1, h2⟩ := Bool.and_eq_true_iff.mp hc
      exact .inr ⟨not_not.mp hd, hq, state, node, hi, .inl ⟨h1, h2, rfl⟩⟩
    split
    · rename_i hw
      refine .inl ⟨rfl, fun _ node' _ _ h => ?_⟩
      rw [← Option.some.inj (h.declared.symm.trans hn)] at hw
      exact hw
    dsimp only
    split
    · rename_i ha
      exact .inr ⟨not_not.mp hd, hq, state, node, hi, .inr (.inl ⟨ha, rfl⟩)⟩
    · rename_i ha
      exact .inr ⟨not_not.mp hd, hq, state, node, hi, .inr (.inr ⟨Nat.le_of_not_lt ha, rfl⟩)⟩
  · rename_i hnone
    exact .inl ⟨rfl, fun state node _ _ h => absurd h.declared (hnone state node h.recorded)⟩

/-- The recovery pass after the nodes `seen`. -/
structure RecoveryInv (resumingWait : Bool) (g : DAGGraph) (nodeStates : NodeStates)
    (inDegree : OrdMap String Int) (seen : List String) (q : RecoveryQueue) : Prop where
  nodup : (q.resumableComposites ++ q.ready).Nodup
  queue : ∀ v ∈ q.resumableComposites ++ q.ready,
    inDegree.get? v = some 0 ∧ isDone nodeStates v = false
  composites : ∀ v ∈ q.resumableComposites, v ∈ seen ∧
    ∃ state node, Interrupted g nodeStates v state node ∧ isResumableComposite node.config.type = true
  recovered : ∀ v ∈ q.ready, isReady nodeStates v = true ∨ v ∈ q.recoveryQueued ∧
    ∃ state node, Interrupted g nodeStates v state node ∧ state.attempt ≤ node.maxAttempts.getD 1
  exhausted : ∀ x ∈ q.exhausted, inDegree.get? x.nodeId = some 0 ∧
    ∃ state node, Interrupted g nodeStates x.nodeId state node
  complete : ∀ v ∈ seen, ∀ state node, inDegree.get? v = some 0 → Interrupted g nodeStates v state node →
    node.maxAttempts.getD 1 < state.attempt → node.config.type = .step → q.exhausted ≠ []

theorem RecoveryInv.step {inDegree : OrdMap String Int} {seen : List String} {q : RecoveryQueue}
    (h : RecoveryInv resumingWait g nodeStates inDegree seen q) {v : String} {degree : Int}
    (hv : inDegree.get? v = some degree) (hnew : v ∉ seen) :
    RecoveryInv resumingWait g nodeStates inDegree (seen ++ [v])
      (recoverNode resumingWait g nodeStates q v degree) := by
  have hcomposites : ∀ w ∈ q.resumableComposites, w ∈ seen ++ [v] ∧ _ := fun w hw =>
    ⟨List.mem_append_left _ (h.composites w hw).1, (h.composites w hw).2⟩
  have hfresh : v ∉ q.resumableComposites := fun hmem => hnew (h.composites v hmem).1
  have hcomplete : ∀ w ∈ seen ++ [v], w ≠ v → w ∈ seen := fun w hw hne =>
    (List.mem_append.mp hw).resolve_right fun hw => hne (List.mem_singleton.mp hw)
  rcases recoverNode_cases resumingWait g nodeStates q v degree with
    ⟨heq, hwait⟩ | ⟨hd, hq, state, node, hi, hcase⟩
  · rw [heq]
    refine ⟨h.nodup, h.queue, hcomposites, h.recovered, h.exhausted, fun w hw state node h0 hi ha ht => ?_⟩
    by_cases hwv : w = v
    · subst hwv
      have hq : w ∉ q.ready := by
        intro hq
        rcases h.recovered w hq with hr | ⟨-, state', node', hi', hle⟩
        · rw [isReady, hi.recorded] at hr
          simp [hi.running] at hr
        · rw [← Option.some.inj (hi.recorded.symm.trans hi'.recorded),
            ← Option.some.inj (hi.declared.symm.trans hi'.declared)] at hle
          omega
      have hty := hwait state node (Option.some.inj (hv.symm.trans h0)) hq hi
      rw [ht] at hty
      cases hty
    · exact h.complete w (hcomplete w hw hwv) state node h0 hi ha ht
  rcases hcase with ⟨hrw, hty, heq⟩ | ⟨ha, heq⟩ | ⟨ha, heq⟩
  · rw [heq]
    refine ⟨?_, fun w hw => ?_, fun w hw => ?_, h.recovered, h.exhausted,
      fun w hw state' node' h0 hi' ha ht => ?_⟩
    · have hperm : (q.resumableComposites ++ [v] ++ q.ready).Perm (v :: (q.resumableComposites ++ q.ready)) := by
        rw [List.append_assoc]
        exact List.perm_middle
      refine hperm.nodup_iff.mpr (List.nodup_cons.mpr ⟨fun hmem => ?_, h.nodup⟩)
      exact (List.mem_append.mp hmem).elim hfresh hq
    · simp only [List.mem_append, List.mem_singleton] at hw
      rcases hw with (hw | rfl) | hw
      · exact h.queue w (List.mem_append_left _ hw)
      · exact ⟨hd ▸ hv, hi.not_done⟩
      · exact h.queue w (List.mem_append_right _ hw)
    · rcases List.mem_append.mp hw with hw | hw
      · exact hcomposites w hw
      · obtain rfl := List.mem_singleton.mp hw
        exact ⟨List.mem_append_right _ hw, state, node, hi, hty⟩
    · by_cases hwv : w = v
      · subst hwv
        rw [← Option.some.inj (hi.declared.symm.trans hi'.declared)] at ht
        rw [ht] at hty
        cases hty
      · exact h.complete w (hcomplete w hw hwv) state' node' h0 hi' ha ht
  · rw [heq]
    refine ⟨h.nodup, h.queue, hcomposites, h.recovered, fun x hx => ?_, fun _ _ _ _ _ _ _ _ => by simp⟩
    rcases List.mem_append.mp hx with hx | hx
    · exact h.exhausted x hx
    · obtain rfl := List.mem_singleton.mp hx
      exact ⟨hd ▸ hv, state, node, hi⟩
  · rw [heq]
    refine ⟨?_, fun w hw => ?_, hcomposites, fun w hw => ?_, h.exhausted,
      fun w hw state' node' h0 hi' ha' ht => ?_⟩
    · rw [← List.append_assoc]
      refine List.nodup_append.mpr ⟨h.nodup, List.nodup_singleton v, ?_⟩
      rintro w hw _ hwv rfl
      obtain rfl := List.mem_singleton.mp hwv
      exact (List.mem_append.mp hw).elim hfresh hq
    · simp only [List.mem_append, List.mem_singleton] at hw
      rcases hw with hw | hw | rfl
      · exact h.queue w (List.mem_append_left _ hw)
      · exact h.queue w (List.mem_append_right _ hw)
      · exact ⟨hd ▸ hv, hi.not_done⟩
    · rcases List.mem_append.mp hw with hw | hw
      · exact (h.recovered w hw).imp_right fun hr => ⟨List.mem_append_left _ hr.1, hr.2⟩
      · obtain rfl := List.mem_singleton.mp hw
        exact .inr ⟨List.mem_append_right _ hw, state, node, hi, ha⟩
    · by_cases hwv : w = v
      · subst hwv
        rw [← Option.some.inj (hi.recorded.symm.trans hi'.recorded),
          ← Option.some.inj (hi.declared.symm.trans hi'.declared)] at ha'
        omega
      · exact h.complete w (hcomplete w hw hwv) state' node' h0 hi' ha' ht

theorem recoverNodes_inv {inDegree : OrdMap String Int} (es : List (String × Int)) :
    ∀ seen q, (∀ e ∈ es, inDegree.get? e.1 = some e.2) → (seen ++ es.map Prod.fst).Nodup →
      RecoveryInv resumingWait g nodeStates inDegree seen q →
      RecoveryInv resumingWait g nodeStates inDegree (seen ++ es.map Prod.fst)
        (es.foldl (fun q (v, degree) => recoverNode resumingWait g nodeStates q v degree) q) := by
  induction es with
  | nil => exact fun seen q _ _ h => by simpa using h
  | cons e es ih =>
    intro seen q hes hnodup h
    have hsplit : seen ++ (e :: es).map Prod.fst = (seen ++ [e.1]) ++ es.map Prod.fst := by simp
    rw [hsplit] at hnodup ⊢
    have hnew : e.1 ∉ seen := fun hmem => by
      have := (List.nodup_append.mp (List.nodup_append.mp hnodup).1).2.2 _ hmem _ List.mem_cons_self
      exact this rfl
    exact ih _ _ (fun e' he' => hes e' (List.mem_cons_of_mem _ he')) hnodup
      (h.step (hes e List.mem_cons_self) hnew)

theorem recoverRunningNodes_spec (resumingWait : Bool) (g : DAGGraph) (nodeStates : NodeStates)
    (inDegree : OrdMap String Int) :
    RecoveryInv resumingWait g nodeStates inDegree inDegree.keys
      (recoverRunningNodes resumingWait g nodeStates inDegree) := by
  refine recoverNodes_inv inDegree.entries [] _ (fun e he => (OrdMap.get?_eq_some ..).mpr he)
    (by simpa using inDegree.nodup) ⟨?_, ?_, nofun, ?_, nofun, nofun⟩
  · simpa using getReadyNodes_nodup inDegree nodeStates
  · intro v hv
    obtain ⟨h0, hr⟩ := mem_getReadyNodes.mp (by simpa using hv)
    exact ⟨h0, isReady_not_done hr⟩
  · exact fun v hv => .inl (mem_getReadyNodes.mp hv).2

end Veryfront.Workflow
