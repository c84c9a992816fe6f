import Veryfront.Workflow.Backend.Memory

/-!
# What decides about retention

A sweep lists terminal runs and deletes them later. Whether it may is decided by the retention revisions
of the runs and by the queue. Every backend call is one move of these.
-/

namespace Veryfront.Workflow

open Veryfront.Lib

structure RetentionView where
  runs : OrdMap String WorkflowRun
  revisions : OrdMap String Nat
  nextGeneration : Nat
  queue : List WorkflowQueueItem
  queued : OrdMap String Unit
  pending : OrdMap String Nat

namespace RetentionView

variable (v : RetentionView)

def advance (r : String) : RetentionView :=
  if v.revisions.contains r then
    { v with revisions := v.revisions.set r v.nextGeneration, nextGeneration := v.nextGeneration + 1 }
  else v

def storeRun (r : String) (run : WorkflowRun) : RetentionView :=
  advance { v with runs := v.runs.set r run } r

def createRun (run : WorkflowRun) : RetentionView :=
  { v with
    runs := v.runs.set run.id run
    revisions := v.revisions.set run.id v.nextGeneration
    nextGeneration := v.nextGeneration + 1 }

def deleteRun (r : String) : RetentionView :=
  { v with
    runs := v.runs.erase r
    revisions := v.revisions.erase r
    queue := v.queue.filter fun item => item.runId ≠ r
    queued := v.queued.erase r
    pending := v.pending.erase r }

def enqueue (job : WorkflowQueueItem) : RetentionView :=
  advance { v with
    queue := insertBefore (fun j => j.priority.getD 0 < job.priority.getD 0) job v.queue
    queued := v.queued.set job.runId () } job.runId

def dequeue (job : WorkflowQueueItem) (rest : List WorkflowQueueItem) : RetentionView :=
  if v.queued.contains job.runId then
    { v with queue := rest, pending := v.pending.set job.runId ((v.pending.get? job.runId).getD 0 + 1) }
  else { v with queue := rest }

def acknowledge (r : String) : RetentionView :=
  let pending := if (v.pending.get? r).getD 0 > 1 then v.pending.set r ((v.pending.get? r).getD 0 - 1)
    else v.pending.erase r
  { v with
    pending := pending
    queued := if !(v.queue.any fun item => item.runId = r) && !pending.contains r then v.queued.erase r
      else v.queued }

def clear : RetentionView := ⟨.empty, .empty, v.nextGeneration, [], .empty, .empty⟩

end RetentionView

/-- What a call did, as far as retention is concerned. `touched` is a change that a retry or a new
user of the run would make; `quiet` is anything else. -/
inductive RetentionEvent
  | quiet
  | touched (runId : String)
  | dequeued (runId : String)
  | acknowledged (runId : String)
  | deleted (runId : String)
  | cleared
deriving DecidableEq

inductive RetentionMove (v : RetentionView) : RetentionEvent → RetentionView → Prop
  | stay : RetentionMove v .quiet v
  | advance {e : RetentionEvent} (r : String) : e = .touched r ∨ e = .quiet → RetentionMove v e (v.advance r)
  | storeRun {r : String} {old run : WorkflowRun} : v.runs.get? r = some old → run.id = old.id →
      RetentionMove v (.touched r) (v.storeRun r run)
  | createRun (run : WorkflowRun) : RetentionMove v (.touched run.id) (v.createRun run)
  | deleteRun (r : String) : RetentionMove v (.deleted r) (v.deleteRun r)
  | enqueue (job : WorkflowQueueItem) : RetentionMove v (.touched job.runId) (v.enqueue job)
  | dequeue {job : WorkflowQueueItem} {rest : List WorkflowQueueItem} : v.queue = job :: rest →
      RetentionMove v (.dequeued job.runId) (v.dequeue job rest)
  | acknowledge (r : String) : RetentionMove v (.acknowledged r) (v.acknowledge r)
  | clear : RetentionMove v .cleared v.clear

/-! ## The calls -/

inductive BackendCall
  | createRun (run : WorkflowRun)
  | updateRun (runId : String) (patch : WorkflowRunUpdate)
  | updateRunIfStatus (runId : String) (expectedStatuses : List WorkflowStatus) (patch : WorkflowRunUpdate)
  | updateRunIfStatusAndWorker (runId : String) (expectedStatuses : List WorkflowStatus) (expectedWorkerId : String)
      (patch : WorkflowRunUpdate)
  | updateRunIfChildWaitBoundary (runId : String) (expectedBoundary : List WorkflowChildRunWaitBoundary)
      (patch : WorkflowRunUpdate) (expectedWorkerId : Option String)
  | restoreRunStateIfStatus (runId : String) (expectedStatuses : List WorkflowStatus)
      (snapshot : WorkflowRunStateSnapshot) (expectedWorkerId : Option String)
  | claimStalledRun (now : Timestamp) (runId workerId : String) (stalledThreshold : Int)
  | deleteRun (runId : String)
  | deleteTerminalRunIfUnchanged (candidate : TerminalRunRetentionCandidate)
  | saveCheckpoint (runId : String) (checkpoint : Checkpoint)
  | saveCheckpointIfStatusAndWorker (storageRunId ownershipRunId : String) (expectedStatuses : List WorkflowStatus)
      (expectedWorkerId : String) (checkpoint : Checkpoint)
  | deleteCheckpoint (runId checkpointId : String)
  | deleteCheckpoints (runId : String) (checkpointIds : List String)
  | savePendingApproval (runId : String) (approval : PersistedPendingApproval)
  | savePendingApprovalIfAbsent (runId : String) (approval : PersistedPendingApproval)
  | savePendingApprovalIfStatusAndWorker (runId : String) (expectedStatuses : List WorkflowStatus)
      (expectedWorkerId : String) (approval : PersistedPendingApproval)
  | updatePendingApproval (runId approvalId : String) (patch : PersistedPendingApproval → PersistedPendingApproval)
  | updateApproval (now : Timestamp) (runId approvalId : String) (decision : ApprovalDecision)
  | reserveApprovalDecisionClaim (runId approvalId recoveryClaimId : String) (claimedAt staleBefore : Timestamp)
  | releaseApprovalDecisionClaim (runId approvalId recoveryClaimId : String)
  | finalizeApprovalDecision (runId approvalId : String) (recoveryClaimId : Option String)
  | savePendingEventWait (runId : String) (wait : PersistedPendingEventWait)
  | savePendingEventWaitIfStatusAndWorker (runId : String) (expectedStatuses : List WorkflowStatus)
      (expectedWorkerId : String) (wait : PersistedPendingEventWait)
  | resolvePendingEventWait (now : Timestamp) (runId waitId : String) (status : EventWaitStatus)
      (unlessBuffered : Option (String × Timestamp))
  | restorePendingEventWait (runId waitId : String)
  | reserveTimedEventWaitClaim (runId waitId : String) (claimedAt staleBefore : Timestamp)
  | finalizeTimedEventWaitClaim (runId waitId : String)
  | appendRunEvent (runId : String) (event : RunEventEnvelope)
  | removeRunEvent (runId eventId : String)
  | takeRunEvent (runId eventName : String)
  | claimRunEventForWait (now : Timestamp) (runId waitId eventName : String) (publishedBefore : Option Timestamp)
  | reserveRunEventDeliveryClaim (runId waitId eventId : String) (claimedAt staleBefore : Timestamp)
  | restoreRunEvent (runId : String) (event : RunEventEnvelope)
  | restoreRunEventDelivery (runId waitId : String) (event : RunEventEnvelope)
  | finalizeRunEventDelivery (runId eventId : String) (delivered : Bool)
  | enqueue (job : WorkflowQueueItem)
  | dequeue
  | acknowledge (runId : String)
  | acquireLock (now : Timestamp) (lockId runId : String) (duration : Int)
  | releaseLock (runId : String) (lockId : Option String)
  | extendLock (now : Timestamp) (runId : String) (duration : Int) (lockId : Option String)
  | clear

namespace BackendCall

/-- A call without a result touches its run when it resolves. -/
def ofUnit (r : String) (reply : Reply Unit) : RetentionEvent × MemoryBackend :=
  (match reply.1 with
    | .ok () => .touched r
    | .error _ => .quiet, reply.2)

/-- A call with a flag touches its run when it resolves true. -/
def ofBool (r : String) (reply : Reply Bool) : RetentionEvent × MemoryBackend :=
  (match reply.1 with
    | .ok true => .touched r
    | _ => .quiet, reply.2)

def ofEvent (r : String) (reply : Reply (Option RunEventEnvelope)) : RetentionEvent × MemoryBackend :=
  (match reply.1 with
    | .ok (some _) => .touched r
    | _ => .quiet, reply.2)

def ofDelete (r : String) (reply : Reply Bool) : RetentionEvent × MemoryBackend :=
  (match reply.1 with
    | .ok true => .deleted r
    | _ => .quiet, reply.2)

def ofDequeue (reply : Reply (Option WorkflowQueueItem)) : RetentionEvent × MemoryBackend :=
  (match reply.1 with
    | .ok (some job) => .dequeued job.runId
    | _ => .quiet, reply.2)

/-- A rollback puts the event back whenever its claim is there, also when it resolves false because the
wait is not the claim's any more. -/
def holdsClaim (b : MemoryBackend) (r waitId eventId : String) : Bool :=
  ((b.claimsOf r).get? eventId).any fun claim => claim.wait.id = waitId

def exec (b : MemoryBackend) : BackendCall → RetentionEvent × MemoryBackend
  | createRun run => ofUnit run.id (b.createRun run)
  | updateRun r patch => ofUnit r (b.updateRun r patch)
  | updateRunIfStatus r statuses patch => ofBool r (b.updateRunIfStatus r statuses patch)
  | updateRunIfStatusAndWorker r statuses worker patch =>
    ofBool r (b.updateRunIfStatusAndWorker r statuses worker patch)
  | updateRunIfChildWaitBoundary r boundary patch worker =>
    ofBool r (b.updateRunIfChildWaitBoundary r boundary patch worker)
  | restoreRunStateIfStatus r statuses snapshot worker =>
    ofBool r (b.restoreRunStateIfStatus r statuses snapshot worker)
  | claimStalledRun now r worker threshold => ofBool r (b.claimStalledRun now r worker threshold)
  | deleteRun r => (.deleted r, (b.deleteRun r).2)
  | deleteTerminalRunIfUnchanged candidate => ofDelete candidate.runId (b.deleteTerminalRunIfUnchanged candidate)
  | saveCheckpoint r checkpoint => ofUnit r (b.saveCheckpoint r checkpoint)
  | saveCheckpointIfStatusAndWorker r owner statuses worker checkpoint =>
    ofBool r (b.saveCheckpointIfStatusAndWorker r owner statuses worker checkpoint)
  | deleteCheckpoint r id => (.quiet, (b.deleteCheckpoint r id).2)
  | deleteCheckpoints r ids => (.quiet, (b.deleteCheckpoints r ids).2)
  | savePendingApproval r approval => ofUnit r (b.savePendingApproval r approval)
  | savePendingApprovalIfAbsent r approval => ofBool r (b.savePendingApprovalIfAbsent r approval)
  | savePendingApprovalIfStatusAndWorker r statuses worker approval =>
    ofBool r (b.savePendingApprovalIfStatusAndWorker r statuses worker approval)
  | updatePendingApproval r id patch => ofUnit r (b.updatePendingApproval r id patch)
  | updateApproval now r id decision => ofBool r (b.updateApproval now r id decision)
  | reserveApprovalDecisionClaim r id token claimedAt staleBefore =>
    ofBool r (b.reserveApprovalDecisionClaim r id token claimedAt staleBefore)
  | releaseApprovalDecisionClaim r id token => (.quiet, (b.releaseApprovalDecisionClaim r id token).2)
  | finalizeApprovalDecision r id token => (.quiet, (b.finalizeApprovalDecision r id token).2)
  | savePendingEventWait r wait => ofBool r (b.savePendingEventWait r wait)
  | savePendingEventWaitIfStatusAndWorker r statuses worker wait =>
    ofBool r (b.savePendingEventWaitIfStatusAndWorker r statuses worker wait)
  | resolvePendingEventWait now r id status unlessBuffered =>
    ofBool r (b.resolvePendingEventWait now r id status unlessBuffered)
  | restorePendingEventWait r id => ofBool r (b.restorePendingEventWait r id)
  | reserveTimedEventWaitClaim r id claimedAt staleBefore =>
    ofBool r (b.reserveTimedEventWaitClaim r id claimedAt staleBefore)
  | finalizeTimedEventWaitClaim r id => (.quiet, (b.finalizeTimedEventWaitClaim r id).2)
  | appendRunEvent r event => ofUnit r (b.appendRunEvent r event)
  | removeRunEvent r id => ofBool r (b.removeRunEvent r id)
  | takeRunEvent r name => ofEvent r (b.takeRunEvent r name)
  | claimRunEventForWait now r waitId name before => ofEvent r (b.claimRunEventForWait now r waitId name before)
  | reserveRunEventDeliveryClaim r waitId eventId claimedAt staleBefore =>
    ofBool r (b.reserveRunEventDeliveryClaim r waitId eventId claimedAt staleBefore)
  | restoreRunEvent r event => ofUnit r (b.restoreRunEvent r event)
  | restoreRunEventDelivery r waitId event =>
    (if holdsClaim b r waitId event.id then .touched r else .quiet, (b.restoreRunEventDelivery r waitId event).2)
  | finalizeRunEventDelivery r eventId delivered => (.quiet, (b.finalizeRunEventDelivery r eventId delivered).2)
  | enqueue job => ofUnit job.runId (b.enqueue job)
  | dequeue => ofDequeue b.dequeue
  | acknowledge r => (.acknowledged r, (b.acknowledge r).2)
  | acquireLock now lockId r duration => (.quiet, (b.acquireLock now lockId r duration).2)
  | releaseLock r lockId => (.quiet, (b.releaseLock r lockId).2)
  | extendLock now r duration lockId => (.quiet, (b.extendLock now r duration lockId).2)
  | clear => (.cleared, b.clear.2)

end BackendCall

/-! ## Every call is one move -/

/-- What holds of the view between calls. -/
structure RetentionView.Consistent (v : RetentionView) : Prop where
  keyed : ∀ r run, v.runs.get? r = some run → run.id = r
  revised : ∀ r, v.revisions.contains r = v.runs.contains r
  issued : ∀ r n, v.revisions.get? r = some n → n < v.nextGeneration
  flagged : ∀ item ∈ v.queue, v.queued.contains item.runId

namespace MemoryBackend

def retentionOf (b : MemoryBackend) : RetentionView :=
  ⟨b.runs, b.runRetentionRevisions, b.nextRunRetentionGeneration, b.queue, b.terminalRetryQueued,
    b.terminalRetryPending⟩

variable {b : MemoryBackend} {r : String}

@[simp] theorem retentionOf_advance : (b.advanceRunRetentionRevision r).retentionOf = b.retentionOf.advance r := by
  unfold advanceRunRetentionRevision RetentionView.advance
  cases hc : b.runRetentionRevisions.contains r <;> simp [retentionOf, hc]

theorem retentionOf_setCheckpoints (c : OrdMap String (List Checkpoint)) :
    retentionOf { b with checkpoints := c } = b.retentionOf := rfl

@[simp] theorem retentionOf_setApprovals (l : List PersistedPendingApproval) :
    (b.setApprovals r l).retentionOf = b.retentionOf := rfl

@[simp] theorem retentionOf_setEventWaits (l : List PersistedPendingEventWait) :
    (b.setEventWaits r l).retentionOf = b.retentionOf := rfl

@[simp] theorem retentionOf_changeEventWait (id : String) (f : PersistedPendingEventWait → PersistedPendingEventWait) :
    (b.changeEventWait r id f).retentionOf = b.retentionOf := rfl

@[simp] theorem retentionOf_setMailbox (m : List RunEventEnvelope) :
    (b.setMailbox r m).retentionOf = b.retentionOf := rfl

@[simp] theorem retentionOf_setClaims (c : OrdMap String (OrdMap String RunEventDeliveryClaim)) :
    retentionOf { b with runEventClaims := c } = b.retentionOf := rfl

@[simp] theorem retentionOf_deleteEmptyRunEventMailbox :
    (b.deleteEmptyRunEventMailbox r).retentionOf = b.retentionOf := by
  unfold deleteEmptyRunEventMailbox
  split <;> rfl

@[simp] theorem retentionOf_releaseRunEventClaim (id : String) :
    (b.releaseRunEventClaim r id).retentionOf = b.retentionOf := by
  simp only [releaseRunEventClaim]
  split
  · rfl
  · split <;> rfl

@[simp] theorem retentionOf_changeApproval (id : String) (f : PersistedPendingApproval → PersistedPendingApproval) :
    (b.changeApproval r id f).retentionOf = b.retentionOf.advance r := by
  rw [changeApproval, retentionOf_advance, retentionOf_setApprovals]

theorem retentionOf_publishRunObservation : (b.publishRunObservation r).retentionOf = b.retentionOf.advance r := by
  rw [publishRunObservation, retentionOf_advance]
  rfl

theorem advance_of_absent {v : RetentionView} (h : v.revisions.contains r = false) : v.advance r = v := by
  rw [RetentionView.advance, h]
  rfl

theorem retentionOf_storeApproval (hv : b.retentionOf.Consistent) (l : List PersistedPendingApproval) :
    (b.storeApproval r l).retentionOf = b.retentionOf.advance r := by
  unfold storeApproval
  split
  · rw [retentionOf_publishRunObservation, retentionOf_setApprovals]
  · rename_i hnone
    have hruns : b.retentionOf.runs.contains r = false := (Bool.not_eq_true _).mp hnone
    have habsent : b.retentionOf.revisions.contains r = false := (hv.revised r).trans hruns
    exact (advance_of_absent habsent).symm

theorem retentionOf_storeRunUpdate (run : WorkflowRun) (status : Option WorkflowStatus) :
    (b.storeRunUpdate r run status).retentionOf = b.retentionOf.storeRun r run := by
  have hreceipts : ∀ b' : MemoryBackend, (b'.persistRunEventDeliveryReceipts r).retentionOf = b'.retentionOf := by
    intro b'
    unfold persistRunEventDeliveryReceipts
    split <;> rfl
  have hdrop : ∀ b' : MemoryBackend, (b'.dropRunEvents r).retentionOf = b'.retentionOf := fun _ => rfl
  have hstored : (publishRunObservation { b with runs := b.runs.set r run } r).retentionOf =
      b.retentionOf.storeRun r run := retentionOf_publishRunObservation
  rcases status with - | (_ | _ | _ | _ | _ | _)
  case some.completed =>
    simp only [storeRunUpdate, hdrop, hreceipts]
    exact hstored
  all_goals exact hstored

end MemoryBackend

namespace BackendCall

variable {b : MemoryBackend} {r : String}

theorem touched_move {b' : MemoryBackend} (h : b'.retentionOf = b.retentionOf.advance r) :
    RetentionMove b.retentionOf (.touched r) b'.retentionOf := by
  rw [h]
  exact .advance r (.inl rfl)

theorem quiet_move {b' : MemoryBackend} (h : b'.retentionOf = b.retentionOf.advance r) :
    RetentionMove b.retentionOf .quiet b'.retentionOf := by
  rw [h]
  exact .advance r (.inr rfl)

theorem same_move {b' : MemoryBackend} (h : b'.retentionOf = b.retentionOf) :
    RetentionMove b.retentionOf .quiet b'.retentionOf := by
  rw [h]
  exact .stay

theorem stored_move {old run : WorkflowRun} {status : Option WorkflowStatus} (hold : b.runs.get? r = some old)
    (hid : run.id = old.id) :
    RetentionMove b.retentionOf (.touched r) (b.storeRunUpdate r run status).retentionOf := by
  rw [MemoryBackend.retentionOf_storeRunUpdate]
  exact .storeRun hold hid

theorem updateRunConditionally_move (patch : WorkflowRunUpdate) (isMatch : WorkflowRun → Bool) :
    RetentionMove b.retentionOf (ofBool r (b.updateRunConditionally r patch isMatch)).1
      (ofBool r (b.updateRunConditionally r patch isMatch)).2.retentionOf := by
  unfold MemoryBackend.updateRunConditionally
  split
  · exact .stay
  · rename_i run hrun
    split
    · exact .stay
    · split
      · exact .stay
      · exact stored_move hrun rfl

theorem appendEventWait_move (wait : PersistedPendingEventWait) :
    RetentionMove b.retentionOf (ofBool r (b.appendEventWait r wait)).1
      (ofBool r (b.appendEventWait r wait)).2.retentionOf := by
  unfold MemoryBackend.appendEventWait
  split
  · exact .stay
  · split
    · exact .stay
    · exact touched_move (by simp [ofBool])

theorem savePendingApproval_move (hv : b.retentionOf.Consistent) (approval : PersistedPendingApproval) :
    RetentionMove b.retentionOf (ofUnit r (b.savePendingApproval r approval)).1
      (ofUnit r (b.savePendingApproval r approval)).2.retentionOf := by
  unfold MemoryBackend.savePendingApproval
  split
  · exact .stay
  · exact touched_move (MemoryBackend.retentionOf_storeApproval hv _)

theorem approvalIfAbsent_move (hv : b.retentionOf.Consistent) (approval : PersistedPendingApproval) :
    RetentionMove b.retentionOf (ofBool r (b.savePendingApprovalIfAbsent r approval)).1
      (ofBool r (b.savePendingApprovalIfAbsent r approval)).2.retentionOf := by
  unfold MemoryBackend.savePendingApprovalIfAbsent
  split
  · exact .stay
  · split
    · exact .stay
    · exact touched_move (MemoryBackend.retentionOf_storeApproval hv _)

theorem storeCheckpoint_move (checkpoint : Checkpoint) :
    RetentionMove b.retentionOf (.touched r) (b.storeCheckpoint r checkpoint).retentionOf :=
  touched_move (by rw [MemoryBackend.storeCheckpoint, MemoryBackend.retentionOf_advance]; rfl)

theorem deleteTerminalRunIfUnchanged_move (candidate : TerminalRunRetentionCandidate) :
    RetentionMove b.retentionOf (ofDelete candidate.runId (b.deleteTerminalRunIfUnchanged candidate)).1
      (ofDelete candidate.runId (b.deleteTerminalRunIfUnchanged candidate)).2.retentionOf := by
  unfold MemoryBackend.deleteTerminalRunIfUnchanged
  split
  · exact .stay
  · split
    · exact .stay
    · rename_i run hrun
      split
      · exact .stay
      · have hdeleted : (b.deleteRunState candidate.runId).1 = true := by
          simp [MemoryBackend.deleteRunState, OrdMap.contains, hrun]
        simp only [hdeleted]
        exact .deleteRun candidate.runId

theorem appendRunEvent_retention (event : RunEventEnvelope) :
    RetentionMove b.retentionOf (ofUnit r (b.appendRunEvent r event)).1
      (ofUnit r (b.appendRunEvent r event)).2.retentionOf := by
  obtain ⟨events, hroom⟩ := b.withRoom_eq r
  unfold MemoryBackend.appendRunEvent
  simp only [hroom]
  split
  · exact .stay
  · split
    · exact .stay
    · exact touched_move (by rw [ofUnit, MemoryBackend.retentionOf_advance]; rfl)

theorem restoreRunEventDelivery_retention (waitId : String) (event : RunEventEnvelope) :
    RetentionMove b.retentionOf (if holdsClaim b r waitId event.id then .touched r else .quiet)
      (b.restoreRunEventDelivery r waitId event).2.retentionOf := by
  unfold MemoryBackend.restoreRunEventDelivery
  by_cases hholds : holdsClaim b r waitId event.id = true
  · rw [if_pos hholds]
    obtain ⟨claim, hclaim, hid⟩ := (Option.any_eq_true _ _).mp hholds
    simp only [hclaim, of_decide_eq_true hid, ne_eq, not_true_eq_false, if_false]
    refine touched_move ?_
    simp only [MemoryBackend.retentionOf_advance, MemoryBackend.retentionOf_releaseRunEventClaim,
      MemoryBackend.retentionOf_setMailbox]
    split <;> rfl
  · rw [if_neg hholds]
    split
    · exact .stay
    · rename_i claim hclaim
      have hid : claim.wait.id ≠ waitId := by
        rintro rfl
        simp [holdsClaim, hclaim] at hholds
      rw [if_pos hid]
      exact .stay

theorem finalizeRunEventDelivery_retention (eventId : String) (delivered : Bool) :
    RetentionMove b.retentionOf .quiet (b.finalizeRunEventDelivery r eventId delivered).2.retentionOf := by
  have hdrop : ∀ b' : MemoryBackend, (if b'.runEvents.contains r then b'.deleteEmptyRunEventMailbox r
      else b').retentionOf = b'.retentionOf := by
    intro b'
    split
    · exact MemoryBackend.retentionOf_deleteEmptyRunEventMailbox
    · rfl
  unfold MemoryBackend.finalizeRunEventDelivery
  simp only [hdrop, MemoryBackend.retentionOf_releaseRunEventClaim]
  split
  · exact .stay
  · refine quiet_move (r := r) ?_
    rw [MemoryBackend.retentionOf_advance]
    split <;> rfl

theorem dequeue_move :
    RetentionMove b.retentionOf (ofDequeue b.dequeue).1 (ofDequeue b.dequeue).2.retentionOf := by
  unfold MemoryBackend.dequeue
  split
  · exact .stay
  · rename_i job rest hqueue
    have hview : b.dequeue.2.retentionOf = b.retentionOf.dequeue job rest := by
      simp only [MemoryBackend.dequeue, hqueue, RetentionView.dequeue]
      cases hq : b.terminalRetryQueued.contains job.runId <;>
        simp only [MemoryBackend.retentionOf, hq, Bool.false_eq_true, if_false, if_true]
    have h := RetentionMove.dequeue (v := b.retentionOf) hqueue
    rw [← hview, MemoryBackend.dequeue, hqueue] at h
    exact h

theorem acknowledge_move : RetentionMove b.retentionOf (.acknowledged r) (b.acknowledge r).2.retentionOf := by
  have h := RetentionMove.acknowledge (v := b.retentionOf) r
  have heq : (b.acknowledge r).2.retentionOf = b.retentionOf.acknowledge r := by
    simp only [MemoryBackend.acknowledge, RetentionView.acknowledge]
    by_cases hp : (b.terminalRetryPending.get? r).getD 0 > 1
    · have hp' : (b.retentionOf.pending.get? r).getD 0 > 1 := hp
      simp only [hp, hp', if_true]
      split <;> rename_i hq <;> simp only [MemoryBackend.retentionOf] at hq ⊢ <;> simp [hq]
    · have hp' : ¬ (b.retentionOf.pending.get? r).getD 0 > 1 := hp
      simp only [hp, hp', if_false]
      split <;> rename_i hq <;> simp only [MemoryBackend.retentionOf] at hq ⊢ <;> simp [hq]
  rw [heq]
  exact h

theorem move (hv : b.retentionOf.Consistent) (call : BackendCall) :
    RetentionMove b.retentionOf (call.exec b).1 (call.exec b).2.retentionOf := by
  cases call with
  | createRun run =>
    simp only [exec, MemoryBackend.createRun]
    split
    · exact .stay
    · exact .createRun run
  | updateRun r patch =>
    simp only [exec, MemoryBackend.updateRun]
    split
    · exact .stay
    · rename_i run hrun
      split
      · exact .stay
      · exact stored_move hrun rfl
  | updateRunIfStatus r statuses patch => exact updateRunConditionally_move ..
  | updateRunIfStatusAndWorker r statuses worker patch => exact updateRunConditionally_move ..
  | updateRunIfChildWaitBoundary r boundary patch worker => exact updateRunConditionally_move ..
  | restoreRunStateIfStatus r statuses snapshot worker =>
    simp only [exec, MemoryBackend.restoreRunStateIfStatus]
    split
    · exact .stay
    · rename_i run hrun
      split
      · exact .stay
      · split
        · exact .stay
        · exact stored_move hrun rfl
  | claimStalledRun now r worker threshold =>
    simp only [exec, MemoryBackend.claimStalledRun]
    split
    · exact .stay
    · rename_i run hrun
      split
      · exact .stay
      · simp only [ofBool, MemoryBackend.retentionOf_publishRunObservation]
        exact .storeRun hrun rfl
  | deleteRun r => exact .deleteRun r
  | deleteTerminalRunIfUnchanged candidate => exact deleteTerminalRunIfUnchanged_move candidate
  | saveCheckpoint r checkpoint => exact storeCheckpoint_move checkpoint
  | saveCheckpointIfStatusAndWorker r owner statuses worker checkpoint =>
    simp only [exec, MemoryBackend.saveCheckpointIfStatusAndWorker]
    split
    · exact .stay
    · split
      · exact storeCheckpoint_move checkpoint
      · exact .stay
  | deleteCheckpoint r id =>
    simp only [exec, MemoryBackend.deleteCheckpoint]
    split
    · exact .stay
    · exact same_move (MemoryBackend.retentionOf_setCheckpoints _)
  | deleteCheckpoints r ids =>
    simp only [exec, MemoryBackend.deleteCheckpoints]
    split
    · exact .stay
    · exact same_move (MemoryBackend.retentionOf_setCheckpoints _)
  | savePendingApproval r approval => exact savePendingApproval_move (r := r) hv approval
  | savePendingApprovalIfAbsent r approval => exact approvalIfAbsent_move hv approval
  | savePendingApprovalIfStatusAndWorker r statuses worker approval =>
    simp only [exec, MemoryBackend.savePendingApprovalIfStatusAndWorker]
    split
    · exact .stay
    · split
      · exact approvalIfAbsent_move hv approval
      · exact .stay
  | updatePendingApproval r id patch =>
    simp only [exec, MemoryBackend.updatePendingApproval]
    split
    · exact .stay
    · exact touched_move (MemoryBackend.retentionOf_changeApproval ..)
  | updateApproval now r id decision =>
    simp only [exec, MemoryBackend.updateApproval]
    split
    · exact .stay
    · split
      · exact .stay
      · split
        · exact .stay
        · exact touched_move (MemoryBackend.retentionOf_changeApproval ..)
  | reserveApprovalDecisionClaim r id token claimedAt staleBefore =>
    simp only [exec, MemoryBackend.reserveApprovalDecisionClaim]
    split
    · exact .stay
    · split
      · exact .stay
      · split
        · exact .stay
        · exact touched_move (MemoryBackend.retentionOf_changeApproval ..)
  | releaseApprovalDecisionClaim r id token =>
    simp only [exec, MemoryBackend.releaseApprovalDecisionClaim]
    split
    · exact .stay
    · split
      · exact quiet_move (MemoryBackend.retentionOf_changeApproval ..)
      · exact .stay
  | finalizeApprovalDecision r id token =>
    simp only [exec, MemoryBackend.finalizeApprovalDecision]
    split
    · exact .stay
    · split
      · exact .stay
      · exact quiet_move (MemoryBackend.retentionOf_changeApproval ..)
  | savePendingEventWait r wait => exact appendEventWait_move wait
  | savePendingEventWaitIfStatusAndWorker r statuses worker wait =>
    simp only [exec, MemoryBackend.savePendingEventWaitIfStatusAndWorker]
    split
    · exact .stay
    · split
      · exact appendEventWait_move wait
      · exact .stay
  | resolvePendingEventWait now r id status unlessBuffered =>
    simp only [exec, MemoryBackend.resolvePendingEventWait]
    split
    · exact .stay
    · split
      · exact .stay
      · split
        · exact .stay
        · exact touched_move (by simp [ofBool])
  | restorePendingEventWait r id =>
    simp only [exec, MemoryBackend.restorePendingEventWait]
    split
    · exact .stay
    · split
      · exact touched_move (by simp [ofBool])
      · exact .stay
  | reserveTimedEventWaitClaim r id claimedAt staleBefore =>
    simp only [exec, MemoryBackend.reserveTimedEventWaitClaim]
    split
    · exact .stay
    · split
      · exact .stay
      · exact touched_move (by simp [ofBool])
  | finalizeTimedEventWaitClaim r id =>
    simp only [exec, MemoryBackend.finalizeTimedEventWaitClaim]
    split
    · exact .stay
    · exact quiet_move (r := r) (by simp)
  | appendRunEvent r event => exact appendRunEvent_retention event
  | removeRunEvent r id =>
    simp only [exec, MemoryBackend.removeRunEvent]
    split
    · exact touched_move (by simp [ofBool])
    · exact .stay
  | takeRunEvent r name =>
    simp only [exec, MemoryBackend.takeRunEvent]
    split
    · exact .stay
    · split
      · exact same_move (by simp [ofEvent])
      · exact touched_move (by simp [ofEvent])
  | claimRunEventForWait now r waitId name before =>
    simp only [exec, MemoryBackend.claimRunEventForWait]
    split
    · exact .stay
    · split
      · exact .stay
      · split
        · exact .stay
        · exact touched_move (by simp [ofEvent])
  | reserveRunEventDeliveryClaim r waitId eventId claimedAt staleBefore =>
    simp only [exec, MemoryBackend.reserveRunEventDeliveryClaim]
    split
    · exact .stay
    · split
      · exact .stay
      · refine touched_move ?_
        simp only [ofBool, MemoryBackend.retentionOf_advance]
        split <;> simp
  | restoreRunEvent r event =>
    simp only [exec, MemoryBackend.restoreRunEvent, ofUnit]
    exact touched_move (by simp)
  | restoreRunEventDelivery r waitId event => exact restoreRunEventDelivery_retention waitId event
  | finalizeRunEventDelivery r eventId delivered => exact finalizeRunEventDelivery_retention eventId delivered
  | enqueue job =>
    simp only [exec, MemoryBackend.enqueue]
    split
    · exact .stay
    · rw [ofUnit, MemoryBackend.retentionOf_advance]
      exact .enqueue job
  | dequeue => exact dequeue_move
  | acknowledge r => exact acknowledge_move
  | acquireLock now lockId r duration =>
    simp only [exec, MemoryBackend.acquireLock]
    split <;> exact .stay
  | releaseLock r lockId =>
    simp only [exec, MemoryBackend.releaseLock]
    split
    · exact .stay
    · split <;> exact .stay
  | extendLock now r duration lockId =>
    simp only [exec, MemoryBackend.extendLock]
    split
    · exact .stay
    · split <;> exact .stay
  | clear => exact .clear

end BackendCall

end Veryfront.Workflow
