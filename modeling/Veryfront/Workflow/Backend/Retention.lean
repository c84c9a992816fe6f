import Veryfront.Lib.ListUpdate
import Veryfront.Workflow.Types

/-!
# Bounded record lists

The retention rules of one run's approvals, event waits, buffered events and checkpoints.
-/

namespace Veryfront.Workflow

open Veryfront.Lib

def MAX_WORKFLOW_CHECKPOINT_HISTORY_ENTRIES : Nat := 1000
def MAX_WORKFLOW_PENDING_APPROVAL_ENTRIES : Nat := 1000
def MAX_WORKFLOW_PENDING_EVENT_WAIT_ENTRIES : Nat := 1000
def MAX_WORKFLOW_RUN_EVENT_MAILBOX_ENTRIES : Nat := 1000
def MAX_WORKFLOW_RUN_EVENT_MAILBOXES : Nat := 10000

/-! ## Approvals and event waits -/

def appendRetained {α : Type} (bound : Nat) (final : α → Bool) (full : VeryfrontError)
    (records : List α) (record : α) : Except VeryfrontError (List α) :=
  let evictionsRequired := records.length + 1 - bound
  if records.countP final < evictionsRequired then .error full
  else .ok (evictOldest final evictionsRequired records ++ [record])

theorem appendRetained_ok {α : Type} {bound : Nat} {final : α → Bool} {full : VeryfrontError}
    {records out : List α} {record : α} (h : appendRetained bound final full records record = .ok out) :
    ∃ kept, kept.Sublist records ∧ (∀ a ∈ records, final a = false → a ∈ kept) ∧ out = kept ++ [record] := by
  rw [appendRetained] at h
  split at h
  · cases h
  · cases h
    exact ⟨_, evictOldest_sublist _ _ _, fun a ha hf => mem_evictOldest _ ha hf, rfl⟩

def isDecided (approval : PersistedPendingApproval) : Bool :=
  approval.status ≠ .pending && !approval.reconciliationPending

def appendRetainedPendingApproval (approvals : List PersistedPendingApproval)
    (approval : PersistedPendingApproval) : Except VeryfrontError (List PersistedPendingApproval) :=
  appendRetained MAX_WORKFLOW_PENDING_APPROVAL_ENTRIES isDecided
    (.orchestration s!"Approval list full (max: {MAX_WORKFLOW_PENDING_APPROVAL_ENTRIES}) and not enough decided records can be evicted without dropping a pending approval. Cannot append approval: {approval.id}")
    approvals approval

def isResolved (wait : PersistedPendingEventWait) : Bool :=
  wait.status ≠ .pending && wait.claimedAt.isNone

def appendRetainedPendingEventWait (waits : List PersistedPendingEventWait)
    (wait : PersistedPendingEventWait) : Except VeryfrontError (List PersistedPendingEventWait) :=
  appendRetained MAX_WORKFLOW_PENDING_EVENT_WAIT_ENTRIES isResolved
    (.orchestration s!"Event wait list full (max: {MAX_WORKFLOW_PENDING_EVENT_WAIT_ENTRIES}) and not enough resolved records can be evicted without dropping a pending wait. Cannot append event wait: {wait.id}")
    waits wait

/-! ## Buffered events -/

/-- Claimed events hold on to their places: `reservedEntries` counts against the bound. -/
def appendRetainedRunEvent (mailbox : List RunEventEnvelope) (event : RunEventEnvelope)
    (reservedEntries : Nat) : Except VeryfrontError (List RunEventEnvelope) :=
  if mailbox.length + reservedEntries ≥ MAX_WORKFLOW_RUN_EVENT_MAILBOX_ENTRIES then
    .error (.orchestration s!"Run event mailbox full (max: {MAX_WORKFLOW_RUN_EVENT_MAILBOX_ENTRIES}) and no buffered event can be dropped without losing one a wait may still claim. Cannot publish event: {event.eventName}")
  else .ok (mailbox ++ [event])

def matchesRetainedRunEvent (eventName : String) (publishedBefore : Option Timestamp)
    (event : RunEventEnvelope) : Bool :=
  event.eventName = eventName && publishedBefore.all (event.publishedAt ≤ ·)

def takeRetainedRunEvent (mailbox : List RunEventEnvelope) (eventName : String)
    (publishedBefore : Option Timestamp) : Option (RunEventEnvelope × List RunEventEnvelope) :=
  (mailbox.find? (matchesRetainedRunEvent eventName publishedBefore)).map fun event =>
    (event, mailbox.eraseP (matchesRetainedRunEvent eventName publishedBefore))

def hasRetainedRunEvent (mailbox : List RunEventEnvelope) (eventName : String)
    (publishedBefore : Option Timestamp) : Bool :=
  mailbox.any (matchesRetainedRunEvent eventName publishedBefore)

/-- `candidate` was published after `event`, by sequence number where both have one. -/
def publishedAfter (event candidate : RunEventEnvelope) : Bool :=
  match event.publicationOrder, candidate.publicationOrder with
  | some order, some candidateOrder => candidateOrder > order
  | _, _ => candidate.publishedAt > event.publishedAt

def restoreRetainedRunEvent (mailbox : List RunEventEnvelope) (event : RunEventEnvelope) :
    List RunEventEnvelope :=
  insertBefore (publishedAfter event) event mailbox

theorem takeRetainedRunEvent_some {mailbox rest : List RunEventEnvelope} {name : String}
    {before : Option Timestamp} {event : RunEventEnvelope}
    (h : takeRetainedRunEvent mailbox name before = some (event, rest)) :
    mailbox.Perm (event :: rest) ∧ rest.Sublist mailbox ∧ event.eventName = name := by
  obtain ⟨e, he, heq⟩ := Option.map_eq_some_iff.mp h
  cases heq
  have hm := List.find?_some he
  simp only [matchesRetainedRunEvent, Bool.and_eq_true, decide_eq_true_eq] at hm
  exact ⟨perm_cons_eraseP he, List.eraseP_sublist, hm.1⟩

/-! ## Checkpoints -/

def appendRetainedCheckpoint (checkpoints : List Checkpoint) (checkpoint : Checkpoint) : List Checkpoint :=
  let pushed := checkpoints ++ [checkpoint]
  pushed.drop (pushed.length - MAX_WORKFLOW_CHECKPOINT_HISTORY_ENTRIES)

def deleteOldestCheckpointOccurrences (checkpoints : List Checkpoint) (checkpointIds : List String) :
    List Checkpoint :=
  checkpointIds.foldl (fun kept id => kept.eraseP fun c => c.id = id) checkpoints

end Veryfront.Workflow
