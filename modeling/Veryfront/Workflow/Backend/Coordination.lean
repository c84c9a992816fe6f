import Veryfront.Workflow.Backend.RunRetention

/-!
# What workers coordinate by

The locks and the queue. Most calls leave both alone.
-/

namespace Veryfront.Workflow

open Veryfront.Lib

structure CoordinationView where
  locks : OrdMap String Lock
  queue : List WorkflowQueueItem
  maxQueueSize : Nat

namespace MemoryBackend

def coordinationOf (b : MemoryBackend) : CoordinationView := ⟨b.locks, b.queue, b.maxQueueSize⟩

variable {b : MemoryBackend} {r : String}

/-! ## What the methods are made of -/

@[simp] theorem coordinationOf_advance : (b.advanceRunRetentionRevision r).coordinationOf = b.coordinationOf := by
  unfold advanceRunRetentionRevision
  split <;> rfl

@[simp] theorem coordinationOf_publishRunObservation : (b.publishRunObservation r).coordinationOf = b.coordinationOf := by
  rw [publishRunObservation, coordinationOf_advance]
  rfl

@[simp] theorem coordinationOf_storeRunUpdate (run : WorkflowRun) (status : Option WorkflowStatus) :
    (b.storeRunUpdate r run status).coordinationOf = b.coordinationOf := by
  have hreceipts : ∀ b' : MemoryBackend, (b'.persistRunEventDeliveryReceipts r).coordinationOf = b'.coordinationOf := by
    intro b'
    unfold persistRunEventDeliveryReceipts
    split <;> rfl
  have hdrop : ∀ b' : MemoryBackend, (b'.dropRunEvents r).coordinationOf = b'.coordinationOf := fun _ => rfl
  have hstored : (publishRunObservation { b with runs := b.runs.set r run } r).coordinationOf = b.coordinationOf :=
    coordinationOf_publishRunObservation
  rcases status with - | (_ | _ | _ | _ | _ | _)
  case some.completed =>
    simp only [storeRunUpdate, hdrop, hreceipts]
    exact hstored
  all_goals exact hstored

@[simp] theorem coordinationOf_updateRunConditionally (patch : WorkflowRunUpdate) (isMatch : WorkflowRun → Bool) :
    (b.updateRunConditionally r patch isMatch).2.coordinationOf = b.coordinationOf := by
  unfold updateRunConditionally
  split
  · rfl
  · split
    · rfl
    · split
      · rfl
      · exact coordinationOf_storeRunUpdate _ _

@[simp] theorem coordinationOf_storeCheckpoint (checkpoint : Checkpoint) :
    (b.storeCheckpoint r checkpoint).coordinationOf = b.coordinationOf := by
  rw [storeCheckpoint, coordinationOf_advance]
  rfl

@[simp] theorem coordinationOf_storeApproval (approvals : List PersistedPendingApproval) :
    (b.storeApproval r approvals).coordinationOf = b.coordinationOf := by
  unfold storeApproval
  split
  · rw [coordinationOf_publishRunObservation]
    rfl
  · rfl

theorem coordinationOf_savePendingApproval (approval : PersistedPendingApproval) :
    (b.savePendingApproval r approval).2.coordinationOf = b.coordinationOf := by
  unfold savePendingApproval
  split
  · rfl
  · exact coordinationOf_storeApproval _

@[simp] theorem coordinationOf_savePendingApprovalIfAbsent (approval : PersistedPendingApproval) :
    (b.savePendingApprovalIfAbsent r approval).2.coordinationOf = b.coordinationOf := by
  unfold savePendingApprovalIfAbsent
  split
  · rfl
  · split
    · rfl
    · exact coordinationOf_storeApproval _

@[simp] theorem coordinationOf_changeApproval (id : String) (f : PersistedPendingApproval → PersistedPendingApproval) :
    (b.changeApproval r id f).coordinationOf = b.coordinationOf := by
  rw [changeApproval, coordinationOf_advance]
  rfl

@[simp] theorem coordinationOf_appendEventWait (wait : PersistedPendingEventWait) :
    (b.appendEventWait r wait).2.coordinationOf = b.coordinationOf := by
  unfold appendEventWait
  split
  · rfl
  · split
    · rfl
    · exact coordinationOf_advance

@[simp] theorem coordinationOf_changeEventWait (id : String) (f : PersistedPendingEventWait → PersistedPendingEventWait) :
    (b.changeEventWait r id f).coordinationOf = b.coordinationOf := rfl

@[simp] theorem coordinationOf_setMailbox (mailbox : List RunEventEnvelope) :
    (b.setMailbox r mailbox).coordinationOf = b.coordinationOf := rfl

@[simp] theorem coordinationOf_setClaims (claims : OrdMap String (OrdMap String RunEventDeliveryClaim)) :
    coordinationOf { b with runEventClaims := claims } = b.coordinationOf := rfl

@[simp] theorem coordinationOf_deleteEmptyRunEventMailbox :
    (b.deleteEmptyRunEventMailbox r).coordinationOf = b.coordinationOf := by
  unfold deleteEmptyRunEventMailbox
  split <;> rfl

@[simp] theorem coordinationOf_releaseRunEventClaim (id : String) :
    (b.releaseRunEventClaim r id).coordinationOf = b.coordinationOf := by
  simp only [releaseRunEventClaim]
  split
  · rfl
  · split <;> rfl

theorem coordinationOf_appendRunEvent (event : RunEventEnvelope) :
    (b.appendRunEvent r event).2.coordinationOf = b.coordinationOf := by
  obtain ⟨events, hroom⟩ := b.withRoom_eq r
  unfold appendRunEvent
  simp only [hroom]
  split
  · rfl
  · split
    · rfl
    · exact coordinationOf_advance

theorem coordinationOf_finalizeRunEventDelivery (eventId : String) (delivered : Bool) :
    (b.finalizeRunEventDelivery r eventId delivered).2.coordinationOf = b.coordinationOf := by
  have hdrop : ∀ b' : MemoryBackend, (if b'.runEvents.contains r then b'.deleteEmptyRunEventMailbox r
      else b').coordinationOf = b'.coordinationOf := by
    intro b'
    split
    · exact coordinationOf_deleteEmptyRunEventMailbox
    · rfl
  unfold finalizeRunEventDelivery
  simp only [hdrop, coordinationOf_releaseRunEventClaim]
  split
  · rfl
  · rw [coordinationOf_advance]
    split <;> rfl

theorem coordinationOf_restoreRunEventDelivery (waitId : String) (event : RunEventEnvelope) :
    (b.restoreRunEventDelivery r waitId event).2.coordinationOf = b.coordinationOf := by
  unfold restoreRunEventDelivery
  split
  · rfl
  · split
    · rfl
    · simp only [coordinationOf_advance, coordinationOf_releaseRunEventClaim, coordinationOf_setMailbox]
      split <;> rfl

end MemoryBackend

/-! ## The calls -/

namespace BackendCall

open MemoryBackend

def coordinates : BackendCall → Bool
  | deleteRun _ => true
  | deleteTerminalRunIfUnchanged _ => true
  | enqueue _ => true
  | dequeue => true
  | acquireLock _ _ _ _ => true
  | releaseLock _ _ => true
  | extendLock _ _ _ _ => true
  | clear => true
  | _ => false

variable {b : MemoryBackend}

theorem coordinationOf_exec {call : BackendCall} (h : call.coordinates = false) :
    (call.exec b).2.coordinationOf = b.coordinationOf := by
  cases call with
  | createRun run =>
    simp only [exec, MemoryBackend.createRun]
    split <;> rfl
  | updateRun r patch =>
    simp only [exec, ofUnit, MemoryBackend.updateRun]
    split
    · rfl
    · split
      · rfl
      · rw [coordinationOf_storeRunUpdate]
  | updateRunIfStatus r statuses patch => simp [exec, ofBool, MemoryBackend.updateRunIfStatus]
  | updateRunIfStatusAndWorker r statuses worker patch => simp [exec, ofBool, MemoryBackend.updateRunIfStatusAndWorker]
  | updateRunIfChildWaitBoundary r boundary patch worker =>
    simp [exec, ofBool, MemoryBackend.updateRunIfChildWaitBoundary]
  | restoreRunStateIfStatus r statuses snapshot worker =>
    simp only [exec, ofBool, MemoryBackend.restoreRunStateIfStatus]
    split
    · rfl
    · split
      · rfl
      · split
        · rfl
        · rw [coordinationOf_storeRunUpdate]
  | claimStalledRun now r worker threshold =>
    simp only [exec, ofBool, MemoryBackend.claimStalledRun]
    split
    · rfl
    · split
      · rfl
      · exact coordinationOf_publishRunObservation
  | saveCheckpoint r checkpoint => simp [exec, ofUnit, MemoryBackend.saveCheckpoint]
  | saveCheckpointIfStatusAndWorker r owner statuses worker checkpoint =>
    simp only [exec, ofBool, MemoryBackend.saveCheckpointIfStatusAndWorker]
    split
    · rfl
    · split
      · exact coordinationOf_storeCheckpoint checkpoint
      · rfl
  | deleteCheckpoint r id =>
    simp only [exec, MemoryBackend.deleteCheckpoint]
    split <;> rfl
  | deleteCheckpoints r ids =>
    simp only [exec, MemoryBackend.deleteCheckpoints]
    split <;> rfl
  | savePendingApproval r approval =>
    simp only [exec, ofUnit]
    exact coordinationOf_savePendingApproval approval
  | savePendingApprovalIfAbsent r approval => exact coordinationOf_savePendingApprovalIfAbsent approval
  | savePendingApprovalIfStatusAndWorker r statuses worker approval =>
    simp only [exec, ofBool, MemoryBackend.savePendingApprovalIfStatusAndWorker]
    split
    · rfl
    · split
      · exact coordinationOf_savePendingApprovalIfAbsent approval
      · rfl
  | updatePendingApproval r id patch =>
    simp only [exec, ofUnit, MemoryBackend.updatePendingApproval]
    split
    · rfl
    · rw [coordinationOf_changeApproval]
  | updateApproval now r id decision =>
    simp only [exec, ofBool, MemoryBackend.updateApproval]
    split
    · rfl
    · split
      · rfl
      · split
        · rfl
        · rw [coordinationOf_changeApproval]
  | reserveApprovalDecisionClaim r id token claimedAt staleBefore =>
    simp only [exec, ofBool, MemoryBackend.reserveApprovalDecisionClaim]
    split
    · rfl
    · split
      · rfl
      · split
        · rfl
        · rw [coordinationOf_changeApproval]
  | releaseApprovalDecisionClaim r id token =>
    simp only [exec, MemoryBackend.releaseApprovalDecisionClaim]
    split
    · rfl
    · split
      · rw [coordinationOf_changeApproval]
      · rfl
  | finalizeApprovalDecision r id token =>
    simp only [exec, MemoryBackend.finalizeApprovalDecision]
    split
    · rfl
    · split
      · rfl
      · rw [coordinationOf_changeApproval]
  | savePendingEventWait r wait => exact coordinationOf_appendEventWait wait
  | savePendingEventWaitIfStatusAndWorker r statuses worker wait =>
    simp only [exec, ofBool, MemoryBackend.savePendingEventWaitIfStatusAndWorker]
    split
    · rfl
    · split
      · exact coordinationOf_appendEventWait wait
      · rfl
  | resolvePendingEventWait now r id status unlessBuffered =>
    simp only [exec, ofBool, MemoryBackend.resolvePendingEventWait]
    split
    · rfl
    · split
      · rfl
      · split
        · rfl
        · exact coordinationOf_advance
  | restorePendingEventWait r id =>
    simp only [exec, ofBool, MemoryBackend.restorePendingEventWait]
    split
    · rfl
    · split
      · exact coordinationOf_advance
      · rfl
  | reserveTimedEventWaitClaim r id claimedAt staleBefore =>
    simp only [exec, ofBool, MemoryBackend.reserveTimedEventWaitClaim]
    split
    · rfl
    · split
      · rfl
      · exact coordinationOf_advance
  | finalizeTimedEventWaitClaim r id =>
    simp only [exec, MemoryBackend.finalizeTimedEventWaitClaim]
    split
    · rfl
    · exact coordinationOf_advance
  | appendRunEvent r event => exact coordinationOf_appendRunEvent event
  | removeRunEvent r id =>
    simp only [exec, ofBool, MemoryBackend.removeRunEvent]
    split
    · simp
    · rfl
  | takeRunEvent r name =>
    simp only [exec, ofEvent, MemoryBackend.takeRunEvent]
    split
    · rfl
    · split <;> simp
  | claimRunEventForWait now r waitId name before =>
    simp only [exec, ofEvent, MemoryBackend.claimRunEventForWait]
    split
    · rfl
    · split
      · rfl
      · split
        · rfl
        · simp
  | reserveRunEventDeliveryClaim r waitId eventId claimedAt staleBefore =>
    simp only [exec, ofBool, MemoryBackend.reserveRunEventDeliveryClaim]
    split
    · rfl
    · split
      · rfl
      · rw [coordinationOf_advance]
        split <;> rfl
  | restoreRunEvent r event =>
    simp only [exec, ofUnit, MemoryBackend.restoreRunEvent]
    simp
  | restoreRunEventDelivery r waitId event => exact coordinationOf_restoreRunEventDelivery waitId event
  | finalizeRunEventDelivery r eventId delivered => exact coordinationOf_finalizeRunEventDelivery eventId delivered
  | acknowledge r =>
    simp only [exec, MemoryBackend.acknowledge]
    split <;> split <;> rfl
  | _ => cases h

end BackendCall

/-! ## The calls that workers coordinate with -/

namespace CoordinationView

def deleteRun (v : CoordinationView) (r : String) : CoordinationView :=
  { v with locks := v.locks.erase r, queue := v.queue.filter fun item => item.runId ≠ r }

end CoordinationView

namespace MemoryBackend

variable (b : MemoryBackend)

theorem enqueue_cases (job : WorkflowQueueItem) :
    (∃ e, b.enqueue job = (.error e, b)) ∨
    b.queue.length < b.maxQueueSize ∧ (b.enqueue job).1 = .ok () ∧ (b.enqueue job).2.coordinationOf =
      { b.coordinationOf with queue := insertBefore (fun j => j.priority.getD 0 < job.priority.getD 0) job b.queue } := by
  rw [enqueue]
  split
  · exact .inl ⟨_, rfl⟩
  · rename_i hroom
    exact .inr ⟨Nat.lt_of_not_le hroom, rfl, coordinationOf_advance⟩

theorem dequeue_cases :
    b.queue = [] ∧ b.dequeue = (.ok none, b) ∨
    ∃ job rest, b.queue = job :: rest ∧ b.dequeue.1 = .ok (some job) ∧
      b.dequeue.2.coordinationOf = { b.coordinationOf with queue := rest } := by
  unfold dequeue
  split
  · rename_i hqueue
    exact .inl ⟨hqueue, rfl⟩
  · rename_i job rest hqueue
    refine .inr ⟨job, rest, hqueue, rfl, ?_⟩
    dsimp only
    split <;> rfl

theorem deleteTerminalRunIfUnchanged_cases (candidate : TerminalRunRetentionCandidate) :
    b.deleteTerminalRunIfUnchanged candidate = (.ok false, b) ∨
    (b.deleteTerminalRunIfUnchanged candidate).1 = .ok true ∧
      (b.deleteTerminalRunIfUnchanged candidate).2.coordinationOf = b.coordinationOf.deleteRun candidate.runId := by
  unfold deleteTerminalRunIfUnchanged
  split
  · exact .inl rfl
  · split
    · exact .inl rfl
    · rename_i run hrun
      split
      · exact .inl rfl
      · have hdeleted : (b.deleteRunState candidate.runId).1 = true := by
          simp [deleteRunState, OrdMap.contains, hrun]
        exact .inr ⟨congrArg Except.ok hdeleted, rfl⟩

theorem acquireLock_cases (now : Timestamp) (lockId r : String) (duration : Int) :
    b.acquireLock now lockId r duration = (.ok none, b) ∧ (∃ lock, b.locks.get? r = some lock ∧ now < lock.expiresAt) ∨
    b.acquireLock now lockId r duration =
        (.ok (some lockId), { b with locks := b.locks.set r ⟨lockId, now + duration⟩ }) ∧
      ∀ lock, b.locks.get? r = some lock → lock.expiresAt ≤ now := by
  rw [acquireLock]
  split
  · rename_i hlive
    obtain ⟨lock, hlock, hexpires⟩ := (Option.any_eq_true _ _).mp hlive
    exact .inl ⟨rfl, lock, hlock, of_decide_eq_true hexpires⟩
  · rename_i hfree
    refine .inr ⟨rfl, ?_⟩
    intro lock hlock
    rw [hlock] at hfree
    simpa using hfree

theorem releaseLock_cases (r : String) (lockId : Option String) :
    b.releaseLock r lockId = (.ok (), b) ∧
      (∀ lock, b.locks.get? r = some lock → ∃ token, lockId = some token ∧ token ≠ lock.lockId) ∨
    b.releaseLock r lockId = (.ok (), { b with locks := b.locks.erase r }) ∧
      ∀ lock token, b.locks.get? r = some lock → lockId = some token → token = lock.lockId := by
  unfold releaseLock
  split
  · rename_i hnone
    refine .inl ⟨rfl, ?_⟩
    intro lock hlock
    rw [hnone] at hlock
    cases hlock
  · rename_i lock hlock
    split
    · rename_i hother
      obtain ⟨token, htoken, hne⟩ := (Option.any_eq_true _ _).mp hother
      refine .inl ⟨rfl, ?_⟩
      intro lock' hlock'
      rw [hlock] at hlock'
      obtain rfl := Option.some.inj hlock'
      exact ⟨token, htoken, of_decide_eq_true hne⟩
    · rename_i hmine
      refine .inr ⟨rfl, ?_⟩
      rintro lock' token hlock' rfl
      rw [hlock] at hlock'
      obtain rfl := Option.some.inj hlock'
      simpa using hmine

theorem extendLock_cases (now : Timestamp) (r : String) (duration : Int) (lockId : Option String) :
    b.extendLock now r duration lockId = (.ok false, b) ∧
      (∀ lock, b.locks.get? r = some lock → now < lock.expiresAt → ∃ token, lockId = some token ∧ token ≠ lock.lockId) ∨
    ∃ lock, b.locks.get? r = some lock ∧ now < lock.expiresAt ∧ (∀ token, lockId = some token → token = lock.lockId) ∧
      b.extendLock now r duration lockId =
        (.ok true, { b with locks := b.locks.set r { lock with expiresAt := now + duration } }) := by
  unfold extendLock
  split
  · rename_i hnone
    refine .inl ⟨rfl, ?_⟩
    intro lock hlock
    rw [hnone] at hlock
    cases hlock
  · rename_i lock hlock
    split
    · rename_i hstop
      refine .inl ⟨rfl, ?_⟩
      intro lock' hlock' hlive
      rw [hlock] at hlock'
      obtain rfl := Option.some.inj hlock'
      rcases hstop with hexpired | hother
      · exact absurd hlive (Int.not_lt.mpr hexpired)
      · obtain ⟨token, htoken, hne⟩ := (Option.any_eq_true _ _).mp hother
        exact ⟨token, htoken, of_decide_eq_true hne⟩
    · rename_i hgo
      obtain ⟨hlive, hmine⟩ := not_or.mp hgo
      refine .inr ⟨lock, hlock, Int.not_le.mp hlive, ?_, rfl⟩
      rintro token rfl
      simpa using hmine

end MemoryBackend

end Veryfront.Workflow
