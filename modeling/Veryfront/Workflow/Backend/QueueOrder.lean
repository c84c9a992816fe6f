import Veryfront.Lib.Priority
import Veryfront.Workflow.Backend.Coordination

/-!
# The order of the queue

Whatever is called in whatever order, the queue holds the jobs that arrived and were neither delivered nor deleted, by
falling priority and in the order of their arrival.
-/

namespace Veryfront.Workflow

open Veryfront.Lib

def WorkflowQueueItem.rank (job : WorkflowQueueItem) : Int := job.priority.getD 0

/-! ## What the replies say about the jobs -/

/-- The jobs that are still to be delivered, as they arrived. -/
def stillWaiting (b : MemoryBackend) (waiting : List WorkflowQueueItem) : BackendCall → List WorkflowQueueItem
  | .enqueue job =>
    match (b.enqueue job).1 with
    | .ok () => waiting ++ [job]
    | .error _ => waiting
  | .dequeue =>
    match b.dequeue.1 with
    | .ok (some job) => waiting.erase job
    | _ => waiting
  | .deleteRun r => waiting.filter fun job => job.runId ≠ r
  | .deleteTerminalRunIfUnchanged candidate =>
    match (b.deleteTerminalRunIfUnchanged candidate).1 with
    | .ok true => waiting.filter fun job => job.runId ≠ candidate.runId
    | _ => waiting
  | .clear => []
  | _ => waiting

theorem stillWaiting_of_other {b : MemoryBackend} {waiting : List WorkflowQueueItem} {call : BackendCall}
    (h : call.coordinates = false) : stillWaiting b waiting call = waiting := by
  unfold stillWaiting
  split
  case h_6 => rfl
  all_goals cases h

structure JobHistory where
  backend : MemoryBackend
  waiting : List WorkflowQueueItem

def JobHistory.next (h : JobHistory) (call : BackendCall) : JobHistory :=
  ⟨(call.exec h.backend).2, stillWaiting h.backend h.waiting call⟩

def JobHistory.after (maxQueueSize : Nat) (calls : List BackendCall) : JobHistory :=
  calls.foldl JobHistory.next ⟨{ maxQueueSize := maxQueueSize }, []⟩

/-! ## What every call keeps -/

structure JobHistory.InOrder (maxQueueSize : Nat) (h : JobHistory) : Prop where
  ranked : Ranked WorkflowQueueItem.rank h.waiting h.backend.queue
  size_eq : h.backend.maxQueueSize = maxQueueSize
  length_le : h.backend.queue.length ≤ maxQueueSize

namespace JobHistory.InOrder

variable {maxQueueSize : Nat} {h : JobHistory}

theorem of_queue {h' : JobHistory} (hv : h.InOrder maxQueueSize) (hwaiting : h'.waiting = h.waiting)
    (hqueue : h'.backend.queue = h.backend.queue) (hsize : h'.backend.maxQueueSize = h.backend.maxQueueSize) :
    h'.InOrder maxQueueSize := by
  refine ⟨?_, hsize.trans hv.size_eq, ?_⟩
  · rw [hwaiting, hqueue]
    exact hv.ranked
  · rw [hqueue]
    exact hv.length_le

theorem of_view {h' : JobHistory} (hv : h.InOrder maxQueueSize) (hwaiting : h'.waiting = h.waiting)
    (hview : h'.backend.coordinationOf = h.backend.coordinationOf) : h'.InOrder maxQueueSize :=
  hv.of_queue hwaiting (congrArg CoordinationView.queue hview) (congrArg CoordinationView.maxQueueSize hview)

theorem deleteRun {h' : JobHistory} {r : String} (hv : h.InOrder maxQueueSize)
    (hwaiting : h'.waiting = h.waiting.filter fun job => job.runId ≠ r)
    (hview : h'.backend.coordinationOf = h.backend.coordinationOf.deleteRun r) : h'.InOrder maxQueueSize := by
  have hqueue : h'.backend.queue = h.backend.queue.filter fun job => job.runId ≠ r := congrArg CoordinationView.queue hview
  have hsize : h'.backend.maxQueueSize = h.backend.maxQueueSize := congrArg CoordinationView.maxQueueSize hview
  refine ⟨?_, hsize.trans hv.size_eq, ?_⟩
  · rw [hwaiting, hqueue]
    exact hv.ranked.filter _
  · rw [hqueue]
    exact Nat.le_trans (List.length_filter_le _ _) hv.length_le

theorem enqueue (hv : h.InOrder maxQueueSize) (job : WorkflowQueueItem) : (h.next (.enqueue job)).InOrder maxQueueSize := by
  rcases h.backend.enqueue_cases job with ⟨e, hfull⟩ | ⟨hroom, hreply, hview⟩
  · refine hv.of_view ?_ ?_
    · simp [next, stillWaiting, hfull]
    · simp [next, BackendCall.exec, BackendCall.ofUnit, hfull]
  · have hqueue : (h.next (.enqueue job)).backend.queue =
        Lib.insertBefore (fun j => decide (j.rank < job.rank)) job h.backend.queue := congrArg CoordinationView.queue hview
    have hsize : (h.next (.enqueue job)).backend.maxQueueSize = h.backend.maxQueueSize :=
      congrArg CoordinationView.maxQueueSize hview
    have hwaiting : (h.next (.enqueue job)).waiting = h.waiting ++ [job] := by simp [next, stillWaiting, hreply]
    refine ⟨?_, hsize.trans hv.size_eq, ?_⟩
    · rw [hwaiting, hqueue]
      exact hv.ranked.insertBefore job
    · rw [hqueue, (insertBefore_perm _ _ _).length_eq, List.length_cons, ← hv.size_eq]
      exact hroom

theorem dequeue (hv : h.InOrder maxQueueSize) : (h.next .dequeue).InOrder maxQueueSize := by
  rcases h.backend.dequeue_cases with ⟨-, hnone⟩ | ⟨job, rest, hqueue, hreply, hview⟩
  · refine hv.of_view ?_ ?_
    · simp [next, stillWaiting, hnone]
    · simp [next, BackendCall.exec, BackendCall.ofDequeue, hnone]
  · have hrest : (h.next .dequeue).backend.queue = rest := congrArg CoordinationView.queue hview
    have hsize : (h.next .dequeue).backend.maxQueueSize = h.backend.maxQueueSize :=
      congrArg CoordinationView.maxQueueSize hview
    have hwaiting : (h.next .dequeue).waiting = h.waiting.erase job := by simp [next, stillWaiting, hreply]
    have hranked := hv.ranked
    have hlength := hv.length_le
    rw [hqueue] at hranked hlength
    refine ⟨?_, hsize.trans hv.size_eq, ?_⟩
    · rw [hwaiting, hrest]
      exact hranked.erase
    · rw [hrest]
      exact Nat.le_of_succ_le hlength

theorem next (hv : h.InOrder maxQueueSize) (call : BackendCall) : (h.next call).InOrder maxQueueSize := by
  cases hcall : call.coordinates with
  | false =>
    exact hv.of_view (stillWaiting_of_other hcall) (BackendCall.coordinationOf_exec hcall)
  | true =>
    cases call with
    | enqueue job => exact hv.enqueue job
    | dequeue => exact hv.dequeue
    | deleteRun r => exact hv.deleteRun (r := r) rfl rfl
    | deleteTerminalRunIfUnchanged candidate =>
      rcases h.backend.deleteTerminalRunIfUnchanged_cases candidate with hsame | ⟨hreply, hview⟩
      · refine hv.of_view ?_ ?_
        · simp [JobHistory.next, stillWaiting, hsame]
        · simp [JobHistory.next, BackendCall.exec, BackendCall.ofDelete, hsame]
      · refine hv.deleteRun ?_ hview
        simp [JobHistory.next, stillWaiting, hreply]
    | acquireLock now lockId r duration =>
      rcases h.backend.acquireLock_cases now lockId r duration with ⟨hsame, -⟩ | ⟨hset, -⟩
      · exact hv.of_view rfl (by simp [JobHistory.next, BackendCall.exec, hsame])
      · exact hv.of_queue rfl (by simp [JobHistory.next, BackendCall.exec, hset])
          (by simp [JobHistory.next, BackendCall.exec, hset])
    | releaseLock r lockId =>
      rcases h.backend.releaseLock_cases r lockId with ⟨hsame, -⟩ | ⟨herase, -⟩
      · exact hv.of_view rfl (by simp [JobHistory.next, BackendCall.exec, hsame])
      · exact hv.of_queue rfl (by simp [JobHistory.next, BackendCall.exec, herase])
          (by simp [JobHistory.next, BackendCall.exec, herase])
    | extendLock now r duration lockId =>
      rcases h.backend.extendLock_cases now r duration lockId with ⟨hsame, -⟩ | ⟨lock, -, -, -, hset⟩
      · exact hv.of_view rfl (by simp [JobHistory.next, BackendCall.exec, hsame])
      · exact hv.of_queue rfl (by simp [JobHistory.next, BackendCall.exec, hset])
          (by simp [JobHistory.next, BackendCall.exec, hset])
    | clear => exact ⟨.nil, hv.size_eq, Nat.zero_le _⟩
    | _ => cases hcall

end JobHistory.InOrder

theorem JobHistory.after_inOrder (maxQueueSize : Nat) (calls : List BackendCall) :
    (JobHistory.after maxQueueSize calls).InOrder maxQueueSize :=
  List.foldlRecOn (motive := fun h => h.InOrder maxQueueSize) calls JobHistory.next
    ⟨.nil, rfl, Nat.zero_le _⟩ fun _ hv call _ => hv.next call

/-- Over any calls of the backend: the queue holds the jobs that arrived and were neither delivered nor deleted, by falling
priority and in the order of arrival, and the next delivery is the oldest job of the highest priority. -/
theorem jobs_in_order (maxQueueSize : Nat) (calls : List BackendCall) :
    let h := JobHistory.after maxQueueSize calls
    Ranked WorkflowQueueItem.rank h.waiting h.backend.queue ∧ h.backend.queue.Perm h.waiting ∧
      h.backend.queue.length ≤ maxQueueSize ∧ (h.backend.dequeue.1 = .ok none ↔ h.waiting = []) ∧
      ∀ job, h.backend.dequeue.1 = .ok (some job) ↔ Leads WorkflowQueueItem.rank (fun _ => true) h.waiting job := by
  intro h
  have hv : h.InOrder maxQueueSize := JobHistory.after_inOrder maxQueueSize calls
  have hhead : ∀ job, h.backend.queue.head? = some job ↔ Leads WorkflowQueueItem.rank (fun _ => true) h.waiting job := by
    intro job
    rw [← hv.ranked.find?_eq_some_iff]
    cases h.backend.queue <;> simp
  refine ⟨hv.ranked, hv.ranked.perm, hv.length_le, ?_, ?_⟩
  · rcases h.backend.dequeue_cases with ⟨hqueue, hnone⟩ | ⟨job, rest, hqueue, hreply, -⟩
    · have hperm := hv.ranked.perm
      rw [hqueue] at hperm
      simp [hnone, hperm.nil_eq]
    · have hperm := hv.ranked.perm
      rw [hqueue] at hperm
      rw [hreply]
      constructor
      · intro hnone
        cases hnone
      · intro hnone
        rw [hnone] at hperm
        exact absurd hperm.eq_nil (List.cons_ne_nil _ _)
  · intro job
    rw [← hhead]
    rcases h.backend.dequeue_cases with ⟨hqueue, hnone⟩ | ⟨first, rest, hqueue, hreply, -⟩
    · simp [hqueue, hnone]
    · simp [hqueue, hreply]

/-- A job without a priority waits behind the urgent one and in front of the next without. -/
example :
    let calls : List BackendCall := [.enqueue ⟨"a", "w", "null", none, 0⟩, .enqueue ⟨"b", "w", "null", some 1, 1⟩,
      .enqueue ⟨"c", "w", "null", some 0, 2⟩]
    (JobHistory.after 10 calls).backend.queue.map WorkflowQueueItem.runId = ["b", "a", "c"] := by decide

end Veryfront.Workflow
