import Veryfront.Workflow.Dag.Recovery

/-!
# What the graph executor guarantees

The in-degree of a node counts its predecessors that are not done, the queue holds nodes that are
not done and have none, and every node that was started is done by the time the next batch is
chosen. So a node starts once at most, and only after its predecessors. The queue runs dry only when
every node is done or nothing can make progress.
-/

namespace Veryfront.Workflow

open Veryfront.Lib

/-! ## What a node's execution may do -/

/-- Every execution completes, skips, fails or parks its node, and leaves the states of the other
nodes of the graph alone. -/
def Coherent (call : DAGCall) (nodes : List WorkflowNode) : Prop :=
  ∀ round nodeId nodeStates result snapshot,
    call.executeNode round nodeId nodeStates = .fulfilled result snapshot →
      (if result.waiting then result.state.status = .running
        else result.state.status = .completed ∨ result.state.status = .skipped ∨
          result.state.status = .failed) ∧
      ∀ node ∈ nodes, node.id ≠ nodeId → snapshot.get? node.id = nodeStates.get? node.id

/-! ## The invariant of the loop -/

structure SchedulerInv (g : DAGGraph) (s : Scheduler) : Prop where
  degrees : DegreesMatch g s.inDegree (isDone s.nodeStates)
  ready_nodup : s.ready.Nodup
  ready : ∀ v ∈ s.ready, s.inDegree.get? v = some 0 ∧ isDone s.nodeStates v = false
  started_nodup : (s.started.map Prod.fst).Nodup
  started_done : ∀ v ∈ s.started.map Prod.fst, v ∈ g.inDegree.keys ∧ isDone s.nodeStates v = true
  started_after : ∀ e ∈ s.started, ∀ u, e.1 ∈ g.dependents u → isDone e.2 u = true

/-- The ends that an exception brings about. -/
def DAGEnd.Thrown : DAGEnd → Prop
  | .threw | .ownershipLost => True
  | .returned _ | .invalidGraph _ | .outOfFuel => False

structure Ended (nodes : List WorkflowNode) (g : DAGGraph) (started : List (String × NodeStates))
    (ending : DAGEnd) : Prop where
  started_nodup : (started.map Prod.fst).Nodup
  started_after : ∀ e ∈ started, ∀ u, e.1 ∈ g.dependents u → isDone e.2 u = true
  completed : ∀ r, ending = .returned r →
    (r.completed = true ↔ ∀ node ∈ nodes, isDone r.nodeStates node.id = true)
  fueled : ending ≠ .outOfFuel

variable {nodes : List WorkflowNode} {g : DAGGraph}

variable {v : String}

theorem mem_keys_of_degree {inDegree : OrdMap String Int} {done : String → Bool}
    (h : DegreesMatch g inDegree done) {d : Int} (hv : inDegree.get? v = some d) :
    v ∈ g.inDegree.keys := by
  rw [← h.keys, ← OrdMap.contains_iff, OrdMap.contains, hv]
  rfl

variable {s : Scheduler}

theorem SchedulerInv.ready_mem (h : SchedulerInv g s) (hv : v ∈ s.ready) :
    v ∈ g.inDegree.keys :=
  mem_keys_of_degree h.degrees (h.ready v hv).1

theorem SchedulerInv.predecessors_done (hg : WellFormed nodes g) (h : SchedulerInv g s) (hv : v ∈ s.ready) {u : String}
    (hu : v ∈ g.dependents u) :
    isDone s.nodeStates u = true := by
  have hzero : undone g (isDone s.nodeStates) v = 0 := by
    have hcount := h.degrees.count v
    rw [(h.ready v hv).1, Option.getD_some] at hcount
    exact_mod_cast hcount.symm
  exact undone_eq_zero hzero (hg.source_mem hu) hu

theorem ended_of_throw {started : List (String × NodeStates)} (hn : (started.map Prod.fst).Nodup)
    (ha : ∀ e ∈ started, ∀ u, e.1 ∈ g.dependents u → isDone e.2 u = true) {e : DAGEnd}
    (he : e.Thrown) : Ended nodes g started e := by
  refine ⟨hn, ha, ?_, ?_⟩
  · rintro r rfl
    exact he.elim
  · rintro rfl
    exact he.elim

theorem ended_incomplete (hg : WellFormed nodes g) {started : List (String × NodeStates)}
    (hn : (started.map Prod.fst).Nodup)
    (ha : ∀ e ∈ started, ∀ u, e.1 ∈ g.dependents u → isDone e.2 u = true)
    {result : DAGExecutionResult} (hr : result.completed = false) (hv : v ∈ g.inDegree.keys)
    (hundone : isDone result.nodeStates v = false) : Ended nodes g started (.returned result) := by
  refine ⟨hn, ha, fun r h => ?_, nofun⟩
  obtain rfl := DAGEnd.returned.inj h
  rw [hr]
  refine ⟨nofun, fun hall => ?_⟩
  obtain ⟨node, hnode, rfl⟩ := List.mem_map.mp (hg.ids ▸ hv)
  rw [hall node hnode] at hundone
  cases hundone

/-! ## Admission and publication -/

/-- The parts of the loop's state that a publication does not touch. -/
structure SameSchedule (s s' : Scheduler) : Prop where
  nodeStates : s'.nodeStates = s.nodeStates
  inDegree : s'.inDegree = s.inDegree
  ready : s'.ready = s.ready
  recoveryQueued : s'.recoveryQueued = s.recoveryQueued
  resumableCompositeIds : s'.resumableCompositeIds = s.resumableCompositeIds
  started : s'.started = s.started

theorem publishNodeStates_same (reply : PublishReply) (s : Scheduler) :
    SameSchedule s (publishNodeStates reply s).1 := by
  unfold publishNodeStates
  cases reply with
  | persisted => exact ⟨rfl, rfl, rfl, rfl, rfl, rfl⟩
  | refused => exact ⟨rfl, rfl, rfl, rfl, rfl, rfl⟩
  | threw tookEffect => cases tookEffect <;> exact ⟨rfl, rfl, rfl, rfl, rfl, rfl⟩

theorem publishNodeStates_throws (reply : PublishReply) (s : Scheduler) {e : DAGEnd}
    (h : (publishNodeStates reply s).2 = some e) : e.Thrown := by
  unfold publishNodeStates at h
  split at h
  · cases h
  all_goals exact Option.some.inj h ▸ trivial

theorem commitAdmission_same (call : DAGCall) (round : Nat) (recovered : Bool) (s : Scheduler) :
    SameSchedule s (commitAdmission call round recovered s).1 := by
  unfold commitAdmission
  split
  · exact publishNodeStates_same _ s
  · split <;> exact ⟨rfl, rfl, rfl, rfl, rfl, rfl⟩

theorem commitAdmission_throws (call : DAGCall) (round : Nat) (recovered : Bool) (s : Scheduler) {e : DAGEnd}
    (h : (commitAdmission call round recovered s).2 = some e) : e.Thrown := by
  unfold commitAdmission at h
  split at h
  · exact publishNodeStates_throws _ s h
  · split at h
    · exact Option.some.inj h ▸ trivial
    · cases h

theorem commitSettlement_same (call : DAGCall) (round : Nat) (s : Scheduler) :
    SameSchedule s (commitSettlement call round s).1 := by
  unfold commitSettlement
  split
  · exact publishNodeStates_same _ s
  · exact ⟨rfl, rfl, rfl, rfl, rfl, rfl⟩

theorem commitSettlement_throws (call : DAGCall) (round : Nat) (s : Scheduler) {e : DAGEnd}
    (h : (commitSettlement call round s).2 = some e) : e.Thrown := by
  unfold commitSettlement at h
  split at h
  · exact publishNodeStates_throws _ s h
  · cases h

theorem runningState_status (existing : Option NodeState) (nodeId : String) (isRecovery : Bool)
    (now : Timestamp) : (runningState existing nodeId isRecovery now).status = .running := by
  cases existing <;> rfl

theorem admitBatch_spec (now : Timestamp) (batch : List String) : ∀ s : Scheduler,
    (admitBatch now s batch).inDegree = s.inDegree ∧
    (admitBatch now s batch).ready = s.ready ∧
    (admitBatch now s batch).started = s.started ∧
    ∀ v, (v ∉ batch → (admitBatch now s batch).nodeStates.get? v = s.nodeStates.get? v) ∧
      (v ∈ batch → ∃ state, (admitBatch now s batch).nodeStates.get? v = some state ∧
        state.status = .running) := by
  induction batch with
  | nil => exact fun s => ⟨rfl, rfl, rfl, fun v => ⟨fun _ => rfl, nofun⟩⟩
  | cons n batch ih =>
    intro s
    obtain ⟨h1, h2, h3, h4⟩ := ih (admitNode now s n)
    refine ⟨h1, h2, h3, fun v => ⟨fun hv => ?_, fun hv => ?_⟩⟩
    · obtain ⟨hne, hv⟩ := not_or.mp (List.mem_cons.not.mp hv)
      refine ((h4 v).1 hv).trans ?_
      simp [admitNode, hne]
    · by_cases hb : v ∈ batch
      · exact (h4 v).2 hb
      · obtain rfl : v = n := (List.mem_cons.mp hv).resolve_right hb
        refine ⟨_, ((h4 v).1 hb).trans ?_, runningState_status (s.nodeStates.get? v) v
          (v ∈ s.recoveryQueued) now⟩
        simp [admitNode]

variable {batch : List String}

theorem isDone_admitBatch (now : Timestamp)
    (hb : ∀ v ∈ batch, isDone s.nodeStates v = false) (v : String) :
    isDone (admitBatch now s batch).nodeStates v = isDone s.nodeStates v := by
  obtain ⟨-, -, -, h⟩ := admitBatch_spec now batch s
  by_cases hv : v ∈ batch
  · obtain ⟨state, hget, hrun⟩ := (h v).2 hv
    rw [hb v hv, isDone, hget]
    simp [hrun, NodeStatus.done]
  · rw [isDone, (h v).1 hv, isDone]

/-! ## Settlement -/

variable {call : DAGCall} {now : Timestamp} {round : Nat}

theorem settleNode_ok (hc : Coherent call nodes)
    {base : NodeStates} {t t' : Settlement} {n : String}
    (h : settleNode g now base t n (call.executeNode round n base) = .ok t') :
    ∃ state : NodeState,
      (∀ v ∈ nodes.map (·.id),
        t'.nodeStates.get? v = if v = n then some state else t.nodeStates.get? v) ∧
      ((base.get? n).map (·.attempt)).getD 0 ≤ state.attempt ∧ state.status ≠ .pending ∧
      (state.status.done = true ∧ t'.outcome = t.outcome ∧
          t'.inDegree = lowerDegrees (fun _ => true) t.inDegree (g.dependents n) ∨
        state.status.done = false ∧ t'.outcome ≠ none ∧ t'.inDegree = t.inDegree) := by
  cases hx : call.executeNode round n base with
  | ownershipLost =>
    rw [hx] at h
    cases h
  | rejected message =>
    rw [hx] at h
    obtain rfl := Except.ok.inj h
    refine ⟨failedState n message (base.get? n) now, fun v _ => ?_, Nat.le_refl _, nofun,
      .inr ⟨rfl, ?_, rfl⟩⟩
    · rw [OrdMap.get?_set]
    · cases t.outcome <;> simp
  | fulfilled result snapshot =>
    obtain ⟨hstatus, hothers⟩ := hc round n base result snapshot hx
    rw [hx] at h
    have hget : ∀ v ∈ nodes.map (·.id),
        ((applyRecordPatch t.nodeStates (createRecordPatch base snapshot)).set n
            (settledState result.state (base.get? n))).get? v =
          if v = n then some (settledState result.state (base.get? n)) else t.nodeStates.get? v := by
      intro v hv
      rw [OrdMap.get?_set]
      split
      · rfl
      · rename_i hne
        obtain ⟨node, hnode, rfl⟩ := List.mem_map.mp hv
        rw [get?_applyRecordPatch_create, if_pos (hothers node hnode hne).symm]
    have hsame : (settledState result.state (base.get? n)).status = result.state.status := rfl
    simp only [settleNode] at h
    split at h
    · -- the node parked
      rename_i hw
      rw [if_pos hw] at hstatus
      obtain rfl := Except.ok.inj h
      refine ⟨_, hget, Nat.le_max_right .., by simp [hsame, hstatus], .inr ⟨?_, ?_, rfl⟩⟩
      · simp [hsame, hstatus, NodeStatus.done]
      · cases t.outcome <;> simp
    rename_i hw
    rw [if_neg hw] at hstatus
    split at h
    · -- it failed
      rename_i hf
      obtain rfl := Except.ok.inj h
      refine ⟨_, hget, Nat.le_max_right .., by simp [hsame, hf], .inr ⟨?_, ?_, rfl⟩⟩
      · simp [hsame, hf, NodeStatus.done]
      · cases t.outcome <;> simp
    split at h
    · rename_i hd
      obtain rfl := Except.ok.inj h
      refine ⟨_, hget, Nat.le_max_right .., ?_, .inl ⟨hd, rfl, rfl⟩⟩
      rcases hstatus with h | h | h <;> simp [hsame, h]
    · rename_i hf hd
      rcases hstatus with h | h | h
      · exact absurd (by simp [h, NodeStatus.done]) hd
      · exact absurd (by simp [h, NodeStatus.done]) hd
      · exact absurd h hf

/-- While a batch settles: `rest` are its nodes that are not settled yet. -/
structure SettleInv (nodes : List WorkflowNode) (g : DAGGraph) (base : NodeStates)
    (batch rest : List String) (t : Settlement) : Prop where
  degrees : DegreesMatch g t.inDegree (isDone t.nodeStates)
  pending : ∀ v ∈ rest, isDone t.nodeStates v = false
  settled : t.outcome = none → ∀ v ∈ batch, v ∉ rest → isDone t.nodeStates v = true
  stopped : t.outcome ≠ none → ∃ v ∈ batch, v ∉ rest ∧ isDone t.nodeStates v = false
  others : ∀ v ∈ nodes.map (·.id), v ∉ batch → t.nodeStates.get? v = base.get? v

theorem SettleInv.step (hg : WellFormed nodes g) (hc : Coherent call nodes) {base : NodeStates} {rest : List String} {n : String}
    {t t' : Settlement} (hb : batch ⊆ nodes.map (·.id)) (hn : n ∈ batch) (hrest : n ∉ rest)
    (hsub : rest ⊆ batch) (h : SettleInv nodes g base batch (n :: rest) t)
    (ht : settleNode g now base t n (call.executeNode round n base) = .ok t') :
    SettleInv nodes g base batch rest t' := by
  obtain ⟨state, hget, -, -, hcase⟩ := settleNode_ok (g := g) hc ht
  have hdone : ∀ v ∈ nodes.map (·.id), isDone t'.nodeStates v =
      if v = n then state.status.done else isDone t.nodeStates v := by
    intro v hv
    rw [isDone, hget v hv]
    split <;> rfl
  have hpending : ∀ v ∈ rest, isDone t'.nodeStates v = false := by
    intro v hv
    rw [hdone v (hb (hsub hv)), if_neg (fun e : v = n => hrest (e ▸ hv))]
    exact h.pending v (List.mem_cons_of_mem _ hv)
  have hothers : ∀ v ∈ nodes.map (·.id), v ∉ batch → t'.nodeStates.get? v = base.get? v := by
    intro v hv hvb
    rw [hget v hv, if_neg (fun e : v = n => hvb (e ▸ hn)), h.others v hv hvb]
  have hprev : ∀ v ∈ batch, v ∉ rest → v ≠ n → v ∉ n :: rest := fun v _ h1 h2 hmem =>
    (List.mem_cons.mp hmem).elim h2 h1
  rcases hcase with ⟨hd, ho, hdeg⟩ | ⟨hd, ho, hdeg⟩
  · refine ⟨?_, hpending, fun hnone v hv hvr => ?_, fun hsome => ?_, hothers⟩
    · rw [hdeg]
      refine (h.degrees.complete hg (fun _ _ => rfl) (h.pending n List.mem_cons_self)).congr fun u hu => ?_
      rw [hdone u (hg.ids ▸ hu)]
      by_cases hun : u = n <;> simp [hun, hd]
    · rw [hdone v (hb hv)]
      split
      · exact hd
      · rename_i hne
        exact h.settled (ho ▸ hnone) v hv (hprev v hv hvr hne)
    · obtain ⟨v, hv, hvr, hundone⟩ := h.stopped (ho ▸ hsome)
      obtain ⟨hne, hvr⟩ := not_or.mp (List.mem_cons.not.mp hvr)
      exact ⟨v, hv, hvr, by rw [hdone v (hb hv), if_neg hne, hundone]⟩
  · refine ⟨?_, hpending, fun hnone => absurd hnone ho, fun _ => ?_, hothers⟩
    · rw [hdeg]
      refine h.degrees.congr fun u hu => ?_
      rw [hdone u (hg.ids ▸ hu)]
      split
      · rename_i hun
        rw [hd, hun, h.pending n List.mem_cons_self]
      · rfl
    · exact ⟨n, hn, hrest, by rw [hdone n (hb hn), if_pos rfl, hd]⟩

theorem settleBatch_inv (hg : WellFormed nodes g) (hc : Coherent call nodes) {base : NodeStates}
    (hb : batch ⊆ nodes.map (·.id)) (rest : List String) : ∀ t t' : Settlement,
      rest.Nodup → rest ⊆ batch → SettleInv nodes g base batch rest t →
      settleBatch g now base (fun n => call.executeNode round n base) rest t = .ok t' →
      SettleInv nodes g base batch [] t' := by
  induction rest with
  | nil =>
    intro t t' _ _ h ht
    exact Except.ok.inj ht ▸ h
  | cons n rest ih =>
    intro t t' hnodup hsub h ht
    obtain ⟨hn, hnodup⟩ := List.nodup_cons.mp hnodup
    have hrest : rest ⊆ batch := fun w hw => hsub (List.mem_cons_of_mem _ hw)
    unfold settleBatch at ht
    cases hs : settleNode g now base t n (call.executeNode round n base) with
    | error e => rw [hs] at ht; cases ht
    | ok t₁ =>
      rw [hs] at ht
      exact ih t₁ t' hnodup hrest (h.step hg hc hb (hsub List.mem_cons_self) hn hrest hs) ht

theorem settleBatch_throws {base : NodeStates} {execute : String → NodeExecution}
    {e : DAGEnd} (rest : List String) : ∀ t, settleBatch g now base execute rest t = .error e →
      e.Thrown := by
  induction rest with
  | nil =>
    intro t h
    cases h
  | cons n rest ih =>
    intro t h
    unfold settleBatch at h
    cases hs : settleNode g now base t n (execute n) with
    | error e' =>
      rw [hs] at h
      obtain rfl := Except.error.inj h
      unfold settleNode at hs
      repeat' split at hs
      all_goals cases hs
      trivial
    | ok t₁ =>
      rw [hs] at h
      exact ih t₁ h

/-! ## A batch -/

structure InFlight (nodes : List WorkflowNode) (g : DAGGraph) (batch : List String) (s : Scheduler) :
    Prop where
  degrees : DegreesMatch g s.inDegree (isDone s.nodeStates)
  batch_nodup : batch.Nodup
  batch_mem : batch ⊆ nodes.map (·.id)
  batch_undone : ∀ v ∈ batch, isDone s.nodeStates v = false
  batch_ne_nil : batch ≠ []
  ready_nodup : s.ready.Nodup
  ready : ∀ v ∈ s.ready, v ∉ batch ∧ s.inDegree.get? v = some 0 ∧ isDone s.nodeStates v = false
  predecessors : ∀ v ∈ batch ++ s.ready, ∀ u, v ∈ g.dependents u → isDone s.nodeStates u = true
  started_nodup : (s.started.map Prod.fst).Nodup
  started_done : ∀ v ∈ s.started.map Prod.fst,
    v ∈ g.inDegree.keys ∧ (v ∈ batch ∨ isDone s.nodeStates v = true)
  started_after : ∀ e ∈ s.started, ∀ u, e.1 ∈ g.dependents u → isDone e.2 u = true

theorem InFlight.of_same {s' : Scheduler} (h : InFlight nodes g batch s)
    (hs : SameSchedule s s') : InFlight nodes g batch s' := by
  obtain ⟨h1, h2, h3, -, -, h6⟩ := hs
  constructor
  · rw [h1, h2]; exact h.degrees
  · exact h.batch_nodup
  · exact h.batch_mem
  · rw [h1]; exact h.batch_undone
  · exact h.batch_ne_nil
  · rw [h3]; exact h.ready_nodup
  · rw [h1, h2, h3]; exact h.ready
  · rw [h1, h3]; exact h.predecessors
  · rw [h6]; exact h.started_nodup
  · rw [h1, h6]; exact h.started_done
  · rw [h6]; exact h.started_after

theorem degree_zero {inDegree : OrdMap String Int} {done : String → Bool}
    (h : DegreesMatch g inDegree done) (hv : v ∈ g.inDegree.keys)
    (hall : ∀ u, v ∈ g.dependents u → done u = true) : inDegree.get? v = some 0 := by
  have hzero : undone g done v = 0 := by
    refine List.countP_eq_zero.mpr fun u _ hu => ?_
    obtain ⟨h1, h2⟩ := of_decide_eq_true hu
    rw [hall u h1] at h2
    cases h2
  have hcount := h.count v
  rw [hzero] at hcount
  obtain ⟨d, hd⟩ := Option.isSome_iff_exists.mp ((OrdMap.contains_iff inDegree v).mpr (h.keys ▸ hv))
  rw [hd] at hcount ⊢
  exact congrArg some hcount

/-- The nodes that a batch leaves done, when none of it parked or failed, restore the invariant. -/
theorem InFlight.requeue (hg : WellFormed nodes g)
    (h : InFlight nodes g batch s) {t : Settlement}
    (ht : SettleInv nodes g s.nodeStates batch [] t) (hnone : t.outcome = none) {s' : Scheduler}
    (hs : SameSchedule { s with nodeStates := t.nodeStates, inDegree := t.inDegree } s') :
    SchedulerInv g (requeue s') := by
  obtain ⟨h1, h2, h3, -, -, h6⟩ := hs
  dsimp only at h1 h2 h3 h6
  have hkeep : ∀ u ∈ g.inDegree.keys, isDone s.nodeStates u = true → isDone t.nodeStates u = true := by
    intro u hu hd
    by_cases hub : u ∈ batch
    · exact ht.settled hnone u hub List.not_mem_nil
    · rw [isDone, ht.others u (hg.ids ▸ hu) hub]
      exact hd
  have hqueued : ∀ v ∈ s.ready, t.inDegree.get? v = some 0 ∧ isDone t.nodeStates v = false := by
    intro v hv
    obtain ⟨hvb, hdeg, hundone⟩ := h.ready v hv
    have hmem : v ∈ g.inDegree.keys := mem_keys_of_degree h.degrees hdeg
    refine ⟨degree_zero ht.degrees hmem fun u hu => ?_, ?_⟩
    · exact hkeep u (hg.source_mem hu) (h.predecessors v (List.mem_append_right _ hv) u hu)
    · rw [isDone, ht.others v (hg.ids ▸ hmem) hvb]
      exact hundone
  constructor
  · show DegreesMatch g s'.inDegree (isDone s'.nodeStates)
    rw [h1, h2]
    exact ht.degrees
  · exact appendNew_nodup (h3 ▸ h.ready_nodup) _
  · intro v hv
    simp only [Veryfront.Workflow.requeue, h1, h2] at hv ⊢
    rcases mem_appendNew.mp hv with hv | hv
    · exact hqueued v (h3 ▸ hv)
    · obtain ⟨hdeg, hready⟩ := mem_getReadyNodes.mp hv
      exact ⟨hdeg, isReady_not_done hready⟩
  · exact h6 ▸ h.started_nodup
  · intro v hv
    simp only [Veryfront.Workflow.requeue, h1, h6] at hv ⊢
    obtain ⟨hmem, hv⟩ := h.started_done v hv
    refine ⟨hmem, hv.elim (fun hb => ?_) (hkeep v hmem)⟩
    exact ht.settled hnone v hb List.not_mem_nil
  · exact h6 ▸ h.started_after

/-- What one batch leaves behind: the invariant, or the end of the call. -/
structure BatchResult (nodes : List WorkflowNode) (g : DAGGraph) (started : List (String × NodeStates))
    (r : Scheduler × Option DAGEnd) : Prop where
  started : r.1.started = started
  continues : r.2 = none → SchedulerInv g r.1
  ends : ∀ e, r.2 = some e → Ended nodes g r.1.started e

theorem concludeBatch_spec (hg : WellFormed nodes g) (h : InFlight nodes g batch s) {t : Settlement}
    (ht : SettleInv nodes g s.nodeStates batch [] t) {s' : Scheduler}
    (hs : SameSchedule { s with nodeStates := t.nodeStates, inDegree := t.inDegree } s') :
    BatchResult nodes g s.started (concludeBatch call round t s') := by
  have hnodup : (s'.started.map Prod.fst).Nodup := hs.started ▸ h.started_nodup
  have hafter : ∀ e ∈ s'.started, ∀ u, e.1 ∈ g.dependents u → isDone e.2 u = true :=
    hs.started ▸ h.started_after
  have hstop : t.outcome ≠ none → ∃ v ∈ g.inDegree.keys, isDone s'.nodeStates v = false := by
    intro hne
    obtain ⟨v, hv, -, hundone⟩ := ht.stopped hne
    exact ⟨v, hg.ids ▸ h.batch_mem hv, hs.nodeStates ▸ hundone⟩
  unfold concludeBatch
  split
  · rename_i ho
    obtain ⟨v, hv, hundone⟩ := hstop (by simp [ho])
    refine ⟨hs.started, nofun, fun e he => ?_⟩
    exact Option.some.inj he ▸ ended_incomplete hg hnodup hafter rfl hv hundone
  · rename_i ho
    obtain ⟨v, hv, hundone⟩ := hstop (by simp [ho])
    refine ⟨hs.started, nofun, fun e he => ?_⟩
    exact Option.some.inj he ▸ ended_incomplete hg hnodup hafter rfl hv hundone
  · rename_i ho
    have hinv := h.requeue hg ht ho hs
    dsimp only
    split
    · rename_i hdur
      split
      · refine ⟨hs.started, nofun, fun e he => ?_⟩
        exact Option.some.inj he ▸ ended_of_throw hinv.started_nodup hinv.started_after trivial
      split
      · -- a paused call leaves queued nodes that are not done
        refine ⟨hs.started, nofun, fun e he => ?_⟩
        have hne : (requeue s').ready ≠ [] := by simpa using (Bool.and_eq_true_iff.mp hdur).2
        obtain ⟨v, hv⟩ := List.exists_mem_of_ne_nil _ hne
        exact Option.some.inj he ▸ ended_incomplete hg hinv.started_nodup hinv.started_after rfl
          (hinv.ready_mem hv) (hinv.ready v hv).2
      · exact ⟨hs.started, fun _ => hinv, nofun⟩
    · exact ⟨hs.started, fun _ => hinv, nofun⟩

theorem InFlight.settleInv (h : InFlight nodes g batch s) :
    SettleInv nodes g s.nodeStates batch batch { nodeStates := s.nodeStates, inDegree := s.inDegree } :=
  ⟨h.degrees, h.batch_undone, fun _ _ hv hn => absurd hv hn, fun hne => absurd rfl hne, fun _ _ _ => rfl⟩

theorem settle_spec (hg : WellFormed nodes g) (hc : Coherent call nodes) (h : InFlight nodes g batch s) :
    BatchResult nodes g s.started (settle call g round batch s) := by
  unfold settle
  split
  · rename_i e he
    refine ⟨rfl, nofun, fun e' he' => ?_⟩
    exact Option.some.inj he' ▸ ended_of_throw h.started_nodup h.started_after (settleBatch_throws batch _ he)
  · rename_i t ht
    have hinv := settleBatch_inv hg hc h.batch_mem batch _ t h.batch_nodup (fun _ hv => hv) h.settleInv ht
    have hsame := commitSettlement_same call round
      { s with nodeStates := t.nodeStates, inDegree := t.inDegree }
    have hthrows := @commitSettlement_throws call round
      { s with nodeStates := t.nodeStates, inDegree := t.inDegree }
    have hnodup := hsame.started ▸ h.started_nodup
    have hafter := hsame.started ▸ h.started_after
    split
    · rename_i s' e hcommit
      rw [hcommit] at hsame hthrows hnodup hafter
      refine ⟨hsame.started, nofun, fun e' he' => ?_⟩
      exact Option.some.inj he' ▸ ended_of_throw hnodup hafter (hthrows rfl)
    · rename_i s' hcommit
      rw [hcommit] at hsame hnodup hafter
      split
      · refine ⟨hsame.started, nofun, fun e' he' => ?_⟩
        exact Option.some.inj he' ▸ ended_of_throw hnodup hafter trivial
      · exact concludeBatch_spec hg h hinv hsame

theorem SchedulerInv.admit (hg : WellFormed nodes g) (h : SchedulerInv g s)
    {ready : List String} (hperm : (batch ++ ready).Perm s.ready) (hne : batch ≠ [])
    (now : Timestamp) : InFlight nodes g batch (admitBatch now { s with ready } batch) ∧
      ∀ v ∈ batch, v ∉ s.started.map Prod.fst := by
  obtain ⟨hb_nodup, hr_nodup, hdisjoint⟩ := List.nodup_append.mp (hperm.nodup_iff.mpr h.ready_nodup)
  have hqueue : ∀ v ∈ batch ++ ready, v ∈ s.ready := fun v hv => hperm.mem_iff.mp hv
  have hbatch : ∀ v ∈ batch, isDone s.nodeStates v = false := fun v hv =>
    (h.ready v (hqueue v (List.mem_append_left _ hv))).2
  have hdone := isDone_admitBatch now (s := { s with ready }) hbatch
  obtain ⟨h1, h2, h3, -⟩ := admitBatch_spec now batch { s with ready }
  refine ⟨⟨?_, hb_nodup, fun v hv => ?_, fun v hv => ?_, hne, ?_, fun v hv => ?_, fun v hv u hu => ?_,
    ?_, fun v hv => ?_, ?_⟩, fun v hv hstarted => ?_⟩
  · rw [h1]
    exact h.degrees.congr fun u _ => hdone u
  · exact hg.ids ▸ h.ready_mem (hqueue v (List.mem_append_left _ hv))
  · exact (hdone v).trans (hbatch v hv)
  · rw [h2]
    exact hr_nodup
  · rw [h2] at hv
    obtain ⟨hdeg, hundone⟩ := h.ready v (hqueue v (List.mem_append_right _ hv))
    exact ⟨fun hb => hdisjoint v hb v hv rfl, (congrArg (·.get? v) h1).trans hdeg, (hdone v).trans hundone⟩
  · rw [h2] at hv
    exact (hdone u).trans (h.predecessors_done hg (hqueue v hv) hu)
  · rw [h3]
    exact h.started_nodup
  · rw [h3] at hv
    obtain ⟨hmem, hd⟩ := h.started_done v hv
    exact ⟨hmem, .inr ((hdone v).trans hd)⟩
  · rw [h3]
    exact h.started_after
  · have hundone := hbatch v hv
    rw [(h.started_done v hstarted).2] at hundone
    cases hundone

theorem InFlight.start (h : InFlight nodes g batch s)
    (hfresh : ∀ v ∈ batch, v ∉ s.started.map Prod.fst) (hg : WellFormed nodes g) :
    InFlight nodes g batch
      { s with started := s.started ++ batch.map fun nodeId => (nodeId, s.nodeStates) } := by
  have hmap : (batch.map fun nodeId => (nodeId, s.nodeStates)).map Prod.fst = batch := by
    rw [List.map_map]
    exact List.map_id batch
  refine { h with started_nodup := ?_, started_done := fun v hv => ?_, started_after := fun e he u hu => ?_ }
  · rw [List.map_append, hmap]
    exact List.nodup_append.mpr ⟨h.started_nodup, h.batch_nodup, fun v hv w hw e => hfresh w hw (e ▸ hv)⟩
  · rw [List.map_append, hmap] at hv
    rcases List.mem_append.mp hv with hv | hv
    · exact h.started_done v hv
    · exact ⟨hg.ids ▸ h.batch_mem hv, .inl hv⟩
  · rcases List.mem_append.mp he with he | he
    · exact h.started_after e he u hu
    · obtain ⟨v, hv, rfl⟩ := List.mem_map.mp he
      exact h.predecessors v (List.mem_append_left _ hv) u hu

theorem executeBatch_spec (hg : WellFormed nodes g) (hc : Coherent call nodes) (round : Nat) (h : InFlight nodes g batch s)
    (hfresh : ∀ v ∈ batch, v ∉ s.started.map Prod.fst) :
    ∃ started, (started = s.started ∨
        started = s.started ++ batch.map fun nodeId => (nodeId, s.nodeStates)) ∧
      BatchResult nodes g started (executeBatch call g round batch s) ∧
      ((executeBatch call g round batch s).2 = none →
        started = s.started ++ batch.map fun nodeId => (nodeId, s.nodeStates)) := by
  unfold executeBatch
  split
  · refine ⟨_, .inl rfl, ⟨rfl, nofun, fun e he => ?_⟩, nofun⟩
    exact Option.some.inj he ▸ ended_of_throw h.started_nodup h.started_after trivial
  · have hstart := h.start hfresh hg
    refine ⟨_, .inr rfl, ?_, fun _ => rfl⟩
    dsimp only
    split
    · refine ⟨rfl, nofun, fun e he => ?_⟩
      exact Option.some.inj he ▸ ended_of_throw hstart.started_nodup hstart.started_after trivial
    · exact settle_spec hg hc hstart

theorem selectBatch_front (hg : WellFormed nodes g) (h : SchedulerInv g s)
    (hne : s.ready ≠ []) {reservations : SubWorkflowReservations} {ready : List String}
    (hselect : selectBatch g reservations s.resumableCompositeIds
      ⟨s.ready.take call.maxConcurrency, s.ready.drop call.maxConcurrency⟩ = .ok ⟨batch, ready⟩) :
    (batch ++ ready).Perm s.ready ∧ batch ≠ [] := by
  have hnodup : (s.ready.take call.maxConcurrency).Nodup := h.ready_nodup.sublist (List.take_sublist ..)
  have htake : s.ready.take call.maxConcurrency ≠ [] := by
    have := call.maxConcurrency_pos
    rw [ne_eq, List.take_eq_nil_iff]
    rintro (h0 | h0)
    · omega
    · exact hne h0
  obtain ⟨hperm, hbatch⟩ := selectBatch_ok (fun _ _ => hg.id_eq) hnodup htake hselect
  rw [List.take_append_drop] at hperm
  exact ⟨hperm, hbatch⟩

theorem runBatch_spec (hg : WellFormed nodes g) (hc : Coherent call nodes) (round : Nat) (h : SchedulerInv g s)
    (hne : s.ready ≠ []) :
    ((runBatch call g round s).2 = none → SchedulerInv g (runBatch call g round s).1 ∧
      s.started.length < (runBatch call g round s).1.started.length) ∧
    ∀ e, (runBatch call g round s).2 = some e → Ended nodes g (runBatch call g round s).1.started e := by
  unfold runBatch
  split
  · refine ⟨nofun, fun e he => ?_⟩
    exact Option.some.inj he ▸ ended_of_throw h.started_nodup h.started_after trivial
  split
  · refine ⟨nofun, fun e he => ?_⟩
    obtain ⟨v, hv⟩ := List.exists_mem_of_ne_nil _ hne
    exact Option.some.inj he ▸ ended_incomplete hg h.started_nodup h.started_after rfl
      (h.ready_mem hv) (h.ready v hv).2
  · rename_i batch ready hselect
    obtain ⟨hperm, hbatch⟩ := selectBatch_front hg h hne hselect
    obtain ⟨hin, hfresh⟩ := h.admit hg hperm hbatch (call.now round)
    obtain ⟨-, -, hstarted, -⟩ := admitBatch_spec (call.now round) batch { s with ready }
    have hsame := commitAdmission_same call round (batch.any (· ∈ s.recoveryQueued))
      (admitBatch (call.now round) { s with ready } batch)
    have hthrows := @commitAdmission_throws call round (batch.any (· ∈ s.recoveryQueued))
      (admitBatch (call.now round) { s with ready } batch)
    dsimp only
    split
    · rename_i s' e hcommit
      rw [hcommit] at hsame hthrows
      refine ⟨nofun, fun e' he' => ?_⟩
      exact Option.some.inj he' ▸ ended_of_throw (hin.of_same hsame).started_nodup
        (hin.of_same hsame).started_after (hthrows rfl)
    · rename_i s' hcommit
      rw [hcommit] at hsame
      have hs : s'.started = s.started := hsame.started.trans hstarted
      obtain ⟨started, -, hresult, hlong⟩ := executeBatch_spec hg hc round (hin.of_same hsame)
        (fun v hv => hs ▸ hfresh v hv)
      refine ⟨fun hnone => ⟨hresult.continues hnone, ?_⟩, hresult.ends⟩
      have hpos := List.length_pos_iff.mpr hbatch
      rw [hresult.started, hlong hnone, hs, List.length_append, List.length_map]
      omega

/-! ## A whole call -/

theorem finish_completed (call : DAGCall) (nodes : List WorkflowNode) (nodeStates : NodeStates) :
    (finish call nodes nodeStates).completed = true ↔
      ∀ node ∈ nodes, isDone nodeStates node.id = true := by
  have hdetails : getUnfinishedNodeDetails nodes nodeStates = [] ↔
      ∀ node ∈ nodes, isDone nodeStates node.id = true := by
    rw [getUnfinishedNodeDetails, List.filterMap_eq_nil_iff]
    refine forall₂_congr fun node _ => ?_
    unfold isDone
    cases nodeStates.get? node.id with
    | none => simp [NodeStatus.done]
    | some state => simp
  have hfinish : (finish call nodes nodeStates).completed = true ↔
      getUnfinishedNodeDetails nodes nodeStates = [] := by
    unfold finish
    dsimp only
    split
    · simp_all
    · simp_all
  exact hfinish.trans hdetails

theorem finish_nodeStates (call : DAGCall) (nodes : List WorkflowNode) (nodeStates : NodeStates) :
    (finish call nodes nodeStates).nodeStates = nodeStates := by
  unfold finish
  dsimp only
  split <;> rfl

theorem SchedulerInv.started_le (hg : WellFormed nodes g) (h : SchedulerInv g s) :
    s.started.length ≤ nodes.length := by
  have hsub : s.started.map Prod.fst ⊆ nodes.map (·.id) := fun v hv => hg.ids ▸ (h.started_done v hv).1
  simpa using h.started_nodup.length_le_of_subset hsub

theorem runBatches_spec (hg : WellFormed nodes g) (hc : Coherent call nodes) (fuel : Nat) :
    ∀ round s, SchedulerInv g s → nodes.length < fuel + s.started.length →
      Ended nodes g (runBatches call nodes g fuel round s).1.started
        (runBatches call nodes g fuel round s).2 := by
  induction fuel with
  | zero =>
    intro round s h hfuel
    exact absurd (h.started_le hg) (by omega)
  | succ fuel ih =>
    intro round s h hfuel
    unfold runBatches
    split
    · refine ⟨h.started_nodup, h.started_after, fun r hr => ?_, nofun⟩
      rw [← DAGEnd.returned.inj hr, finish_nodeStates]
      exact finish_completed call nodes s.nodeStates
    · rename_i hne
      obtain ⟨hcontinue, hend⟩ := runBatch_spec hg hc round h hne
      split
      · rename_i s' e hrun
        rw [hrun] at hend
        exact hend e rfl
      · rename_i s' hrun
        rw [hrun] at hcontinue
        obtain ⟨hinv, hlong⟩ := hcontinue rfl
        exact ih (round + 1) s' hinv (by dsimp only at hlong; omega)

theorem isDone_exhaustNode {x : ExhaustedNode} {nodeStates : NodeStates}
    (h : isDone nodeStates v = false) : isDone (exhaustNode now nodeStates x) v = false := by
  unfold exhaustNode
  split
  · exact h
  · rw [isDone, OrdMap.get?_set]
    split
    · rfl
    · exact h

theorem isDone_exhausted (xs : List ExhaustedNode) :
    ∀ nodeStates, isDone nodeStates v = false →
      isDone (xs.foldl (exhaustNode now) nodeStates) v = false := by
  induction xs with
  | nil => exact fun _ h => h
  | cons x xs ih => exact fun _ h => ih _ (isDone_exhaustNode h)

theorem initialScheduler_inv (hg : WellFormed nodes g) (nodeStates : NodeStates) (resumingWait : Bool) :
    SchedulerInv g (initialScheduler nodeStates (updateInDegreesForCompletedNodes nodeStates g)
      (recoverRunningNodes resumingWait g nodeStates (updateInDegreesForCompletedNodes nodeStates g))) := by
  have hrec := recoverRunningNodes_spec resumingWait g nodeStates
    (updateInDegreesForCompletedNodes nodeStates g)
  exact ⟨updateInDegrees_spec hg nodeStates, hrec.nodup, hrec.queue, List.nodup_nil, nofun, nofun⟩

theorem executeUnwrapped_ended (nodeStates : NodeStates)
    (hg : buildGraph nodes = .ok g) (ha : DepthFirst.Acyclic g.dependents) (hc : Coherent call nodes)
    (hstart : call.startFromNode = none) :
    Ended nodes g (executeUnwrapped call nodes nodeStates).started
      (executeUnwrapped call nodes nodeStates).ending := by
  have hwf : WellFormed nodes g := buildGraph_ok hg
  have hnodup : (([] : List (String × NodeStates)).map Prod.fst).Nodup := List.nodup_nil
  have hafter : ∀ e ∈ ([] : List (String × NodeStates)), ∀ u, e.1 ∈ g.dependents u → isDone e.2 u = true :=
    nofun
  unfold executeUnwrapped
  split
  · exact ended_of_throw hnodup hafter trivial
  rw [hg]
  simp only [hasCycle_of_acyclic hwf ha, hstart, Option.filter_none]
  have hrec := recoverRunningNodes_spec call.resumingWait g nodeStates
    (updateInDegreesForCompletedNodes nodeStates g)
  split
  · rename_i first rest hexhausted
    obtain ⟨hdeg, state, node, hi⟩ := hrec.exhausted first (hexhausted ▸ List.mem_cons_self)
    exact ended_incomplete hwf hnodup hafter rfl
      (mem_keys_of_degree (updateInDegrees_spec hwf nodeStates) hdeg)
      (isDone_exhausted (first :: rest) nodeStates hi.not_done)
  · refine runBatches_spec hwf hc _ 0 _ (initialScheduler_inv hwf nodeStates call.resumingWait) ?_
    simp [initialScheduler]

/-- Nothing outside the graph ends the call: no abort, no death of the worker, no failed write and
no change of owner. -/
structure Undisturbed (call : DAGCall) : Prop where
  aborts : ∀ round point, call.aborts round point = false
  publishes : ∀ round boundary, call.onNodeStatesChanged round boundary = .persisted
  admits : ∀ round, call.onChildRecoveryAdmitted round = true
  owned : ∀ round nodeId nodeStates, call.executeNode round nodeId nodeStates ≠ .ownershipLost

theorem settleBatch_undisturbed (g : DAGGraph) (hu : Undisturbed call) (now : Timestamp)
    (round : Nat) (base : NodeStates) (rest : List String) :
    ∀ t, ∃ t', settleBatch g now base (fun n => call.executeNode round n base) rest t = .ok t' := by
  induction rest with
  | nil => exact fun t => ⟨t, rfl⟩
  | cons n rest ih =>
    intro t
    have hok : ∃ t₁, settleNode g now base t n (call.executeNode round n base) = .ok t₁ := by
      have howned := hu.owned round n base
      unfold settleNode
      split
      · rename_i h
        exact absurd h howned
      · exact ⟨_, rfl⟩
      · dsimp only
        repeat' split
        all_goals exact ⟨_, rfl⟩
    obtain ⟨t₁, h₁⟩ := hok
    obtain ⟨t', h'⟩ := ih t₁
    exact ⟨t', by rw [settleBatch, h₁]; exact h'⟩

theorem runBatch_undisturbed (hu : Undisturbed call) {e : DAGEnd}
    (h : (runBatch call g round s).2 = some e) : ∃ r, e = .returned r := by
  unfold runBatch at h
  rw [hu.aborts, if_neg nofun] at h
  split at h
  · exact ⟨_, (Option.some.inj h).symm⟩
  rename_i batch ready _
  obtain ⟨s', hcommit⟩ : ∃ s', commitAdmission call round (batch.any (· ∈ s.recoveryQueued))
      (admitBatch (call.now round) { s with ready } batch) = (s', none) := by
    unfold commitAdmission publishNodeStates
    rw [hu.publishes, hu.admits]
    split
    · exact ⟨_, rfl⟩
    · exact ⟨_, by simp; rfl⟩
  simp only [hcommit] at h
  unfold executeBatch at h
  simp only [hu.aborts, Bool.false_eq_true, if_false] at h
  unfold settle at h
  split at h
  · rename_i e' he'
    obtain ⟨t', ht'⟩ := settleBatch_undisturbed g hu (call.now round) round
      s'.nodeStates batch { nodeStates := s'.nodeStates, inDegree := s'.inDegree }
    rw [ht'] at he'
    cases he'
  · rename_i t ht
    obtain ⟨s'', hsettle⟩ : ∃ s'', commitSettlement call round
        { s' with
          started := s'.started ++ batch.map fun nodeId => (nodeId, s'.nodeStates)
          nodeStates := t.nodeStates
          inDegree := t.inDegree } = (s'', none) := by
      unfold commitSettlement publishNodeStates
      rw [hu.publishes]
      split <;> exact ⟨_, rfl⟩
    simp only [hsettle, hu.aborts, Bool.false_eq_true, if_false] at h
    unfold concludeBatch at h
    split at h
    · exact ⟨_, (Option.some.inj h).symm⟩
    · exact ⟨_, (Option.some.inj h).symm⟩
    · simp only [hu.aborts, Bool.false_eq_true, if_false] at h
      split at h
      · split at h
        · exact ⟨_, (Option.some.inj h).symm⟩
        · cases h
      · cases h

theorem runBatches_undisturbed (hu : Undisturbed call) (fuel : Nat) :
    ∀ round s, (runBatches call nodes g fuel round s).2 ≠ .outOfFuel →
      ∃ r, (runBatches call nodes g fuel round s).2 = .returned r := by
  induction fuel with
  | zero => exact fun _ _ h => absurd rfl h
  | succ fuel ih =>
    intro round s h
    unfold runBatches at h ⊢
    split
    · exact ⟨_, rfl⟩
    · rename_i hne
      rw [if_neg hne] at h
      split
      · rename_i s' e hrun
        exact runBatch_undisturbed (g := g) hu (s := s) (by rw [hrun])
      · rename_i s' hrun
        rw [hrun] at h
        exact ih (round + 1) s' h

theorem executeUnwrapped_undisturbed (nodeStates : NodeStates)
    (hg : buildGraph nodes = .ok g) (ha : DepthFirst.Acyclic g.dependents) (hc : Coherent call nodes)
    (hstart : call.startFromNode = none) (hu : Undisturbed call) :
    ∃ r, (executeUnwrapped call nodes nodeStates).ending = .returned r := by
  have hend := (executeUnwrapped_ended nodeStates hg ha hc hstart).fueled
  unfold executeUnwrapped at hend ⊢
  rw [hu.aborts, if_neg nofun, hg] at hend ⊢
  simp only [hasCycle_of_acyclic (buildGraph_ok hg) ha, hstart, Option.filter_none] at hend ⊢
  split
  · exact ⟨_, rfl⟩
  · rename_i hexhausted
    rw [hexhausted] at hend
    exact runBatches_undisturbed hu _ 0 _ hend

/-- Each node starts at most once in a call, and only when everything that it depends on is
done. The call reports completion exactly when every node has ended completed or skipped, and it
ends by itself: unless something outside ends it, it returns. -/
theorem dag_execution_safe (call : DAGCall) (nodes : List WorkflowNode) (nodeStates : NodeStates)
    (g : DAGGraph) (hg : buildGraph nodes = .ok g) (ha : DepthFirst.Acyclic g.dependents)
    (hc : Coherent call nodes) (hstart : call.startFromNode = none) :
    let execution := executeUnwrapped call nodes nodeStates
    (execution.started.map Prod.fst).Nodup ∧
    (∀ e ∈ execution.started, ∀ u, e.1 ∈ g.dependents u → isDone e.2 u = true) ∧
    (∀ r, execution.ending = .returned r →
      (r.completed = true ↔ ∀ node ∈ nodes, isDone r.nodeStates node.id = true)) ∧
    execution.ending ≠ .outOfFuel ∧
    (Undisturbed call → ∃ r, execution.ending = .returned r) := by
  obtain ⟨h1, h2, h3, h4⟩ := executeUnwrapped_ended nodeStates hg ha hc hstart
  exact ⟨h1, h2, h3, h4, executeUnwrapped_undisturbed nodeStates hg ha hc hstart⟩

def smoothCall : DAGCall where
  runId := "run"
  rootRunId := "run"
  maxConcurrency := 10
  maxConcurrency_pos := by decide
  resumingWait := false
  rootKeyspace := true
  subWorkflowReservations := fun _ _ => none
  executeNode := fun _ nodeId nodeStates =>
    .fulfilled { state := { nodeId, status := .completed, attempt := 1 }, waiting := false } nodeStates
  onNodeStatesChanged := fun _ _ => .persisted
  onChildRecoveryAdmitted := fun _ => true
  shouldPause := fun _ => false
  aborts := fun _ _ => false
  now := fun _ => 0

theorem smoothCall_coherent (nodes : List WorkflowNode) : Coherent smoothCall nodes := by
  rintro round nodeId nodeStates result snapshot h
  obtain ⟨rfl, rfl⟩ := NodeExecution.fulfilled.inj h
  exact ⟨.inl rfl, fun _ _ _ => rfl⟩

def twoSteps : List WorkflowNode := [{ id := "a", config := .step }, { id := "b", config := .step }]

/-- The second step has no `dependsOn` and so waits for the first one. -/
def twoStepGraph : DAGGraph where
  adjList := ⟨[("a", ["b"]), ("b", [])], by decide⟩
  inDegree := ⟨[("a", 0), ("b", 1)], by decide⟩
  nodeMap := ⟨[("a", { id := "a", config := .step }), ("b", { id := "b", config := .step })], by decide⟩

theorem buildGraph_twoSteps : buildGraph twoSteps = .ok twoStepGraph := rfl

theorem twoStepGraph_acyclic : DepthFirst.Acyclic twoStepGraph.dependents := by
  refine DepthFirst.acyclic_of_rank (fun v => if v = "b" then 1 else 0) fun u v hv => ?_
  by_cases hu : u = "a"
  · subst hu
    obtain rfl : v = "b" := by simpa using (show v ∈ ["b"] from hv)
    decide
  · have hnil : twoStepGraph.dependents u = [] := by
      by_cases hb : u = "b"
      · subst hb; rfl
      · simp [DAGGraph.dependents, twoStepGraph, OrdMap.get?, Ne.symm hu, Ne.symm hb]
    rw [hnil] at hv
    cases hv

theorem dag_execution_safe_sequence :
    (executeUnwrapped smoothCall twoSteps .empty).started.map Prod.fst = ["a", "b"] ∧
    let execution := executeUnwrapped smoothCall twoSteps .empty
    (execution.started.map Prod.fst).Nodup ∧
    (∀ e ∈ execution.started, ∀ u, e.1 ∈ twoStepGraph.dependents u → isDone e.2 u = true) ∧
    (∀ r, execution.ending = .returned r →
      (r.completed = true ↔ ∀ node ∈ twoSteps, isDone r.nodeStates node.id = true)) ∧
    execution.ending ≠ .outOfFuel ∧
    (Undisturbed smoothCall → ∃ r, execution.ending = .returned r) :=
  ⟨by decide, dag_execution_safe smoothCall twoSteps .empty twoStepGraph buildGraph_twoSteps
    twoStepGraph_acyclic (smoothCall_coherent twoSteps) rfl⟩

end Veryfront.Workflow
