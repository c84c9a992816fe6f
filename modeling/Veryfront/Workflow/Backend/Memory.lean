import Veryfront.Workflow.Backend.Retention

/-!
# The in-memory backend

Every method runs to its end without an await, so each is one function from the state before it to
its reply and the state after it. The current time and fresh identifiers are arguments. Observers
are left out: a feed only reads what the methods store.
-/

namespace Veryfront.Workflow

open Veryfront.Lib

def NUMBER_MAX_SAFE_INTEGER : Int := 9007199254740991

structure Lock where
  lockId : String
  expiresAt : Timestamp
deriving DecidableEq, Repr

structure StalledClaim where
  workerId : String
  expiresAt : Timestamp
deriving DecidableEq, Repr

structure MemoryBackend where
  runs : OrdMap String WorkflowRun := .empty
  checkpoints : OrdMap String (List Checkpoint) := .empty
  approvals : OrdMap String (List PersistedPendingApproval) := .empty
  eventWaits : OrdMap String (List PersistedPendingEventWait) := .empty
  runEvents : OrdMap String (List RunEventEnvelope) := .empty
  nextRunEventPublicationOrder : Nat := 0
  runEventClaims : OrdMap String (OrdMap String RunEventDeliveryClaim) := .empty
  queue : List WorkflowQueueItem := []
  locks : OrdMap String Lock := .empty
  stalledClaims : OrdMap String StalledClaim := .empty
  runRevisions : OrdMap String Nat := .empty
  runRetentionRevisions : OrdMap String Nat := .empty
  terminalRetryQueued : OrdMap String Unit := .empty
  terminalRetryPending : OrdMap String Nat := .empty
  nextRunRetentionGeneration : Nat := 0
  maxQueueSize : Nat := 10000
deriving DecidableEq

abbrev Reply (α : Type) := Except VeryfrontError α × MemoryBackend

/-! ## Child-run waits -/

structure WorkflowChildRunWaitBoundary where
  nodeId : String
  waitInstanceId : String
  runIds : List String
deriving DecidableEq, Repr

def codeUnits (s : String) : List Nat :=
  s.toList.flatMap fun c =>
    if c.toNat < 0x10000 then [c.toNat]
    else [0xD800 + (c.toNat - 0x10000) / 0x400, 0xDC00 + (c.toNat - 0x10000) % 0x400]

def isChildRunId (runId : String) : Bool :=
  runId ≠ "" && (codeUnits runId).length ≤ 128 &&
    runId.toList.all fun c => c.isAlphanum || c = '_' || c = '-'

/-- Run ids that a child-run wait may name: between 1 and 1000 of them, each well formed. -/
def isChildRunList (runIds : List String) : Bool :=
  runIds ≠ [] && runIds.length ≤ 1000 && runIds.all isChildRunId

def childRunBoundaryOf (run : WorkflowRun) (nodeId : String) : Option WorkflowChildRunWaitBoundary :=
  match run.nodeStates.get? nodeId with
  | some ⟨_, status, some (.wait "child_run" (some runIds) _), _, _, _, _, _, some waitInstanceId⟩ =>
    if (status = .running ∨ status = .completed) ∧ isChildRunList runIds ∧
        (codeUnits nodeId).length ≤ 255 ∧ waitInstanceId ≠ "" then
      some ⟨nodeId, waitInstanceId, runIds⟩
    else none
  | _ => none

def childRunWaitBoundary (run : WorkflowRun) : List WorkflowChildRunWaitBoundary :=
  run.currentNodes.filterMap (childRunBoundaryOf run)

namespace MemoryBackend

variable (b : MemoryBackend)

/-! ## Retention revisions -/

/-- A run without a revision keeps none: only a run that was created has one. -/
def advanceRunRetentionRevision (runId : String) : MemoryBackend :=
  if b.runRetentionRevisions.contains runId then
    { b with
      runRetentionRevisions := b.runRetentionRevisions.set runId b.nextRunRetentionGeneration
      nextRunRetentionGeneration := b.nextRunRetentionGeneration + 1 }
  else b

def publishRunObservation (runId : String) : MemoryBackend :=
  advanceRunRetentionRevision
    { b with runRevisions := b.runRevisions.set runId ((b.runRevisions.get? runId).getD 0 + 1) } runId

/-! ## Runs -/

def requireWorkflowSourceIntegrationPolicy (run : WorkflowRun) : Except VeryfrontError Unit :=
  match run.sourceIntegrationPolicy with
  | some _ => .ok ()
  | none => .error (.orchestration s!"Workflow run \"{run.id}\" is missing its source integration policy snapshot.")

def createRun (run : WorkflowRun) : Reply Unit :=
  match requireWorkflowSourceIntegrationPolicy run with
  | .error e => (.error e, b)
  | .ok () => (.ok (), { b with
      runs := b.runs.set run.id run
      runRevisions := b.runRevisions.set run.id 0
      runRetentionRevisions := b.runRetentionRevisions.set run.id b.nextRunRetentionGeneration
      nextRunRetentionGeneration := b.nextRunRetentionGeneration + 1 })

def getRun (runId : String) : Option WorkflowRun := b.runs.get? runId

def runNotFound (runId : String) : VeryfrontError := .resourceNotFound s!"Run not found: {runId}"

def assertWorkflowRunUpdate (patch : WorkflowRunUpdate) : Except VeryfrontError Unit :=
  if patch.immutableFields = [] then .ok ()
  else
    let fields := ", ".intercalate patch.immutableFields
    .error (.invalidArgument s!"Workflow run fields are immutable after creation: {fields}")

/-- The fields of a patch other than the two maps, over the run's own. -/
def applyStoredPatch (run : WorkflowRun) (patch : WorkflowRunUpdate) : WorkflowRun :=
  { run with
    status := patch.status.getD run.status
    output := patch.output.getD run.output
    currentNodes := patch.currentNodes.getD run.currentNodes
    error := patch.error.getD run.error
    startedAt := patch.startedAt.getD run.startedAt
    heartbeatAt := patch.heartbeatAt.getD run.heartbeatAt
    completedAt := patch.completedAt.getD run.completedAt
    workerId := patch.workerId.getD run.workerId
    traceContext := patch.traceContext.getD run.traceContext }

/-- Context and node states merge by key. -/
def mergeMemoryRunUpdate (run : WorkflowRun) (patch : WorkflowRunUpdate) : WorkflowRun :=
  { applyStoredPatch run patch with
    context := (run.context.merge (patch.context.getD .empty)).eraseAll patch.contextDeletes
    nodeStates := (run.nodeStates.merge (patch.nodeStates.getD .empty)).eraseAll patch.nodeStateDeletes }

/-- One claim's wait, found again by its id, is no longer claimed; if its node completed, the wait
is the receipt of the event. -/
def settleClaimedWait (delivered : Bool) (eventId : String) (wait : PersistedPendingEventWait) :
    PersistedPendingEventWait :=
  { wait with
    claimedAt := none
    recoveryClaimedAt := none
    claimedEventId := none
    deliveredEventId := if delivered then some eventId else wait.deliveredEventId }

def persistRunEventDeliveryReceipts (runId : String) : MemoryBackend :=
  match b.eventWaits.get? runId, b.runs.get? runId with
  | some waits, some run =>
    let claims := (b.runEventClaims.get? runId).getD .empty
    { b with eventWaits := b.eventWaits.set runId (claims.entries.foldl (fun ws entry =>
        let nodeStatus := (run.nodeStates.get? entry.2.wait.nodeId).map NodeState.status
        modifyFirst (fun w => w.id = entry.2.wait.id)
          (settleClaimedWait (nodeStatus = some .completed) entry.1) ws) waits) }
  | _, _ => b

def dropRunEvents (runId : String) : MemoryBackend :=
  { b with runEvents := b.runEvents.erase runId, runEventClaims := b.runEventClaims.erase runId }

/-- `status` is the status the update carries, when it carries one. -/
def storeRunUpdate (runId : String) (updated : WorkflowRun) (status : Option WorkflowStatus) :
    MemoryBackend :=
  let stored := publishRunObservation { b with runs := b.runs.set runId updated } runId
  let unstalled := if status.any (· ≠ .running) then
      { stored with stalledClaims := stored.stalledClaims.erase runId }
    else stored
  match status with
  | some .completed => (unstalled.persistRunEventDeliveryReceipts runId).dropRunEvents runId
  | some .cancelled => unstalled.dropRunEvents runId
  | _ => unstalled

def updateRun (runId : String) (patch : WorkflowRunUpdate) : Reply Unit :=
  match b.runs.get? runId with
  | none => (.error (runNotFound runId), b)
  | some run =>
    match assertWorkflowRunUpdate patch with
    | .error e => (.error e, b)
    | .ok () => (.ok (), b.storeRunUpdate runId (mergeMemoryRunUpdate run patch) patch.status)

def updateRunConditionally (runId : String) (patch : WorkflowRunUpdate) (isMatch : WorkflowRun → Bool) :
    Reply Bool :=
  match b.runs.get? runId with
  | none => (.error (runNotFound runId), b)
  | some run =>
    if !isMatch run then (.ok false, b)
    else match assertWorkflowRunUpdate patch with
      | .error e => (.error e, b)
      | .ok () => (.ok true, b.storeRunUpdate runId (mergeMemoryRunUpdate run patch) patch.status)

def matchesStatusAndWorker (expectedStatuses : List WorkflowStatus) (expectedWorkerId : Option String)
    (run : WorkflowRun) : Bool :=
  expectedStatuses.contains run.status && (expectedWorkerId = none || run.workerId = expectedWorkerId)

def updateRunIfStatus (runId : String) (expectedStatuses : List WorkflowStatus) (patch : WorkflowRunUpdate) :
    Reply Bool :=
  b.updateRunConditionally runId patch (matchesStatusAndWorker expectedStatuses none)

def updateRunIfStatusAndWorker (runId : String) (expectedStatuses : List WorkflowStatus)
    (expectedWorkerId : String) (patch : WorkflowRunUpdate) : Reply Bool :=
  b.updateRunConditionally runId patch (matchesStatusAndWorker expectedStatuses (some expectedWorkerId))

def updateRunIfChildWaitBoundary (runId : String) (expectedBoundary : List WorkflowChildRunWaitBoundary)
    (patch : WorkflowRunUpdate) (expectedWorkerId : Option String) : Reply Bool :=
  b.updateRunConditionally runId patch fun run =>
    matchesStatusAndWorker [.waiting] expectedWorkerId run && childRunWaitBoundary run = expectedBoundary

/-- Replacement of both maps, where an update merges them. -/
def restoreRunStateIfStatus (runId : String) (expectedStatuses : List WorkflowStatus)
    (snapshot : WorkflowRunStateSnapshot) (expectedWorkerId : Option String) : Reply Bool :=
  match b.runs.get? runId with
  | none => (.error (runNotFound runId), b)
  | some run =>
    if !matchesStatusAndWorker expectedStatuses expectedWorkerId run then (.ok false, b)
    else match assertWorkflowRunUpdate snapshot.fields with
      | .error e => (.error e, b)
      | .ok () =>
        let updated := { applyStoredPatch run snapshot.fields with
          nodeStates := snapshot.nodeStates, context := snapshot.context }
        (.ok true, b.storeRunUpdate runId updated snapshot.fields.status)

def deleteRunState (runId : String) : Bool × MemoryBackend :=
  (b.runs.contains runId || b.checkpoints.contains runId || b.approvals.contains runId ||
    b.eventWaits.contains runId || b.runEvents.contains runId || b.runEventClaims.contains runId ||
    b.locks.contains runId || b.stalledClaims.contains runId || b.runRevisions.contains runId ||
    b.runRetentionRevisions.contains runId || b.terminalRetryQueued.contains runId ||
    b.terminalRetryPending.contains runId || b.queue.any (fun item => item.runId = runId),
  { b with
    runs := b.runs.erase runId
    checkpoints := b.checkpoints.erase runId
    approvals := b.approvals.erase runId
    eventWaits := b.eventWaits.erase runId
    runEvents := b.runEvents.erase runId
    runEventClaims := b.runEventClaims.erase runId
    locks := b.locks.erase runId
    stalledClaims := b.stalledClaims.erase runId
    runRevisions := b.runRevisions.erase runId
    runRetentionRevisions := b.runRetentionRevisions.erase runId
    terminalRetryQueued := b.terminalRetryQueued.erase runId
    terminalRetryPending := b.terminalRetryPending.erase runId
    queue := b.queue.filter fun item => item.runId ≠ runId })

def deleteRun (runId : String) : Reply Unit := (.ok (), (b.deleteRunState runId).2)

def isTerminal (status : WorkflowStatus) : Bool :=
  status = .completed || status = .failed || status = .cancelled

def deleteTerminalRunIfUnchanged (candidate : TerminalRunRetentionCandidate) : Reply Bool :=
  if (candidate.revision : Int) > NUMBER_MAX_SAFE_INTEGER then (.ok false, b)
  else match b.runs.get? candidate.runId with
    | none => (.ok false, b)
    | some run =>
      if run.workflowId ≠ candidate.workflowId ∨ run.status ≠ candidate.status ∨
          run.createdAt ≠ candidate.createdAt ∨ run.completedAt ≠ some candidate.completedAt ∨
          b.runRetentionRevisions.get? candidate.runId ≠ some candidate.revision ∨
          ¬ isTerminal run.status then (.ok false, b)
      else
        let (deleted, b') := b.deleteRunState candidate.runId
        (.ok deleted, b')

def memoryTerminalRetentionCandidate (run : WorkflowRun) (cutoff : Timestamp) (revision : Nat) :
    Option TerminalRunRetentionCandidate :=
  match run.completedAt with
  | some completedAt =>
    if isTerminal run.status ∧ completedAt < cutoff then
      some ⟨run.id, run.workflowId, run.createdAt, run.status, completedAt, revision⟩
    else none
  | none => none

def compareTerminalRetentionCandidates (left right : TerminalRunRetentionCandidate) : Ordering :=
  if left.completedAt ≠ right.completedAt then compare left.completedAt right.completedAt
  else if left.runId = right.runId then .eq
  else if codeUnits left.runId < codeUnits right.runId then .lt else .gt

def insertBoundedTerminalRetentionCandidate (candidates : List TerminalRunRetentionCandidate)
    (candidate : TerminalRunRetentionCandidate) (limit : Nat) : List TerminalRunRetentionCandidate × Bool :=
  let inserted := insertBefore (fun c => compareTerminalRetentionCandidates c candidate = .gt) candidate candidates
  if inserted.length ≤ limit then (inserted, false) else (inserted.dropLast, true)

def listTerminalRunRetentionCandidates (completedBefore : Timestamp) (limit : Int) :
    List TerminalRunRetentionCandidate × Bool :=
  if limit > NUMBER_MAX_SAFE_INTEGER ∨ limit ≤ 0 then ([], false)
  else b.runs.values.foldl (fun acc run =>
    if b.terminalRetryQueued.contains run.id || b.terminalRetryPending.contains run.id then acc
    else match memoryTerminalRetentionCandidate run completedBefore
        ((b.runRetentionRevisions.get? run.id).getD 0) with
      | none => acc
      | some candidate =>
        let (candidates, pushedOut) :=
          insertBoundedTerminalRetentionCandidate acc.1 candidate limit.toNat
        (candidates, acc.2 || pushedOut)) ([], false)

/-! ## Checkpoints -/

def storeCheckpoint (runId : String) (checkpoint : Checkpoint) : MemoryBackend :=
  let checkpoints := appendRetainedCheckpoint ((b.checkpoints.get? runId).getD []) checkpoint
  advanceRunRetentionRevision { b with checkpoints := b.checkpoints.set runId checkpoints } runId

def saveCheckpoint (runId : String) (checkpoint : Checkpoint) : Reply Unit :=
  (.ok (), b.storeCheckpoint runId checkpoint)

def saveCheckpointIfStatusAndWorker (storageRunId ownershipRunId : String)
    (expectedStatuses : List WorkflowStatus) (expectedWorkerId : String) (checkpoint : Checkpoint) :
    Reply Bool :=
  match b.runs.get? ownershipRunId with
  | none => (.ok false, b)
  | some run =>
    if matchesStatusAndWorker expectedStatuses (some expectedWorkerId) run then
      (.ok true, b.storeCheckpoint storageRunId checkpoint)
    else (.ok false, b)

def deleteCheckpoint (runId checkpointId : String) : Reply Unit :=
  match b.checkpoints.get? runId with
  | none => (.ok (), b)
  | some checkpoints =>
    let kept := checkpoints.eraseP fun c => c.id = checkpointId
    (.ok (), { b with checkpoints := b.checkpoints.set runId kept })

def deleteCheckpoints (runId : String) (checkpointIds : List String) : Reply Unit :=
  match b.checkpoints.get? runId with
  | none => (.ok (), b)
  | some checkpoints =>
    let kept := deleteOldestCheckpointOccurrences checkpoints checkpointIds
    (.ok (), { b with checkpoints := b.checkpoints.set runId kept })

/-! ## Approvals -/

def approvalsOf (runId : String) : List PersistedPendingApproval := (b.approvals.get? runId).getD []

def setApprovals (runId : String) (approvals : List PersistedPendingApproval) : MemoryBackend :=
  { b with approvals := b.approvals.set runId approvals }

/-- An append is a change of its own that observers of an existing run are told of. -/
def storeApproval (runId : String) (approvals : List PersistedPendingApproval) : MemoryBackend :=
  let stored := b.setApprovals runId approvals
  if b.runs.contains runId then stored.publishRunObservation runId else stored

def savePendingApproval (runId : String) (approval : PersistedPendingApproval) : Reply Unit :=
  match appendRetainedPendingApproval (b.approvalsOf runId) approval with
  | .error e => (.error e, b)
  | .ok approvals => (.ok (), b.storeApproval runId approvals)

/-- Undecided, or decided with a node outcome still to be reconciled. -/
def isLiveApproval (approval : PersistedPendingApproval) : Bool :=
  approval.status = .pending || approval.reconciliationPending

def hasLiveApprovalFor (approvals : List PersistedPendingApproval) (approval : PersistedPendingApproval) : Bool :=
  approvals.any fun candidate => isLiveApproval candidate &&
    isSameWaitNodeExecution candidate.nodeId candidate.waitInstanceId approval.nodeId approval.waitInstanceId

def savePendingApprovalIfAbsent (runId : String) (approval : PersistedPendingApproval) : Reply Bool :=
  if hasLiveApprovalFor (b.approvalsOf runId) approval then (.ok false, b)
  else match appendRetainedPendingApproval (b.approvalsOf runId) approval with
    | .error e => (.error e, b)
    | .ok approvals => (.ok true, b.storeApproval runId approvals)

def savePendingApprovalIfStatusAndWorker (runId : String) (expectedStatuses : List WorkflowStatus)
    (expectedWorkerId : String) (approval : PersistedPendingApproval) : Reply Bool :=
  match b.runs.get? runId with
  | none => (.ok false, b)
  | some run =>
    if matchesStatusAndWorker expectedStatuses (some expectedWorkerId) run then
      b.savePendingApprovalIfAbsent runId approval
    else (.ok false, b)

def approvalNotFound (approvalId : String) : VeryfrontError :=
  .resourceNotFound s!"Approval not found: {approvalId}"

def findApproval (runId approvalId : String) : Option PersistedPendingApproval :=
  (b.approvalsOf runId).find? fun a => a.id = approvalId

def changeApproval (runId approvalId : String) (f : PersistedPendingApproval → PersistedPendingApproval) :
    MemoryBackend :=
  advanceRunRetentionRevision
    (b.setApprovals runId (modifyFirst (fun a => a.id = approvalId) f (b.approvalsOf runId))) runId

/-- `patch` is the record after the caller's fields are laid over it; the id is put back. -/
def updatePendingApproval (runId approvalId : String)
    (patch : PersistedPendingApproval → PersistedPendingApproval) : Reply Unit :=
  if (b.findApproval runId approvalId).isNone then (.error (approvalNotFound approvalId), b)
  else (.ok (), b.changeApproval runId approvalId fun a => { patch a with id := approvalId })

def getPendingApprovals (runId : String) : List PersistedPendingApproval :=
  (b.approvalsOf runId).filter fun a => a.status = .pending

def decideApproval (now : Timestamp) (decision : ApprovalDecision) (approval : PersistedPendingApproval) :
    PersistedPendingApproval :=
  { approval with
    status := if decision.approved then .approved else .rejected
    decidedBy := some decision.approver
    decidedAt := some now
    comment := decision.comment
    decisionData := decision.data
    reconciliationPending := true }

def updateApproval (now : Timestamp) (runId approvalId : String) (decision : ApprovalDecision) : Reply Bool :=
  if !b.approvals.contains runId then
    (.error (.resourceNotFound s!"No approvals found for run: {runId}"), b)
  else match b.findApproval runId approvalId with
    | none => (.error (approvalNotFound approvalId), b)
    | some approval =>
      if approval.status ≠ .pending then (.ok false, b)
      else (.ok true, b.changeApproval runId approvalId (decideApproval now decision))

def listApprovalDecisionClaims (runId : String) : List PersistedPendingApproval :=
  (b.approvalsOf runId).filter (·.reconciliationPending)

def reserveApprovalDecisionClaim (runId approvalId recoveryClaimId : String)
    (claimedAt staleBefore : Timestamp) : Reply Bool :=
  match b.findApproval runId approvalId with
  | none => (.ok false, b)
  | some approval =>
    if !approval.reconciliationPending then (.ok false, b)
    else if approval.recoveryClaimedAt.any (· > staleBefore) then (.ok false, b)
    else (.ok true, b.changeApproval runId approvalId fun a =>
      { a with recoveryClaimId := some recoveryClaimId, recoveryClaimedAt := some claimedAt })

def releaseApprovalDecisionClaim (runId approvalId recoveryClaimId : String) : Reply Unit :=
  match b.findApproval runId approvalId with
  | none => (.ok (), b)
  | some approval =>
    if approval.recoveryClaimId = some recoveryClaimId then
      (.ok (), b.changeApproval runId approvalId fun a =>
        { a with recoveryClaimId := none, recoveryClaimedAt := none })
    else (.ok (), b)

/-- Without a token only an unreserved claim is finalized, and with one only its own. -/
def finalizeApprovalDecision (runId approvalId : String) (recoveryClaimId : Option String) : Reply Unit :=
  match b.findApproval runId approvalId with
  | none => (.ok (), b)
  | some approval =>
    if approval.recoveryClaimId ≠ recoveryClaimId then (.ok (), b)
    else (.ok (), b.changeApproval runId approvalId fun a =>
      { a with reconciliationPending := false, recoveryClaimId := none, recoveryClaimedAt := none })

/-! ## Event waits -/

def eventWaitsOf (runId : String) : List PersistedPendingEventWait := (b.eventWaits.get? runId).getD []

def setEventWaits (runId : String) (waits : List PersistedPendingEventWait) : MemoryBackend :=
  { b with eventWaits := b.eventWaits.set runId waits }

/-- Pending, or claimed by a delivery or a timeout that has not finished. -/
def isLiveEventWait (wait : PersistedPendingEventWait) : Bool :=
  wait.status = .pending || wait.claimedEventId.isSome ||
    (wait.claimedAt.isSome && (wait.waitKind = .delay || wait.status = .expired))

def hasLiveEventWaitFor (waits : List PersistedPendingEventWait) (wait : PersistedPendingEventWait) : Bool :=
  waits.any fun candidate => isLiveEventWait candidate &&
    isSameWaitNodeExecution candidate.nodeId candidate.waitInstanceId wait.nodeId wait.waitInstanceId

/-- The reply says whether a record was appended; a caller of the unfenced save does not see it. -/
def appendEventWait (runId : String) (wait : PersistedPendingEventWait) : Reply Bool :=
  if hasLiveEventWaitFor (b.eventWaitsOf runId) wait then (.ok false, b)
  else match appendRetainedPendingEventWait (b.eventWaitsOf runId) wait with
    | .error e => (.error e, b)
    | .ok waits => (.ok true, (b.setEventWaits runId waits).advanceRunRetentionRevision runId)

def savePendingEventWait (runId : String) (wait : PersistedPendingEventWait) : Reply Bool :=
  b.appendEventWait runId wait

def savePendingEventWaitIfStatusAndWorker (runId : String) (expectedStatuses : List WorkflowStatus)
    (expectedWorkerId : String) (wait : PersistedPendingEventWait) : Reply Bool :=
  match b.runs.get? runId with
  | none => (.error (runNotFound runId), b)
  | some run =>
    if matchesStatusAndWorker expectedStatuses (some expectedWorkerId) run then b.appendEventWait runId wait
    else (.ok false, b)

def getPendingEventWaits (runId : String) : List PersistedPendingEventWait :=
  (b.eventWaitsOf runId).filter fun w => w.status = .pending

def findEventWait (runId waitId : String) : Option PersistedPendingEventWait :=
  (b.eventWaitsOf runId).find? fun w => w.id = waitId

def changeEventWait (runId waitId : String) (f : PersistedPendingEventWait → PersistedPendingEventWait) :
    MemoryBackend :=
  b.setEventWaits runId (modifyFirst (fun w => w.id = waitId) f (b.eventWaitsOf runId))

def mailboxOf (runId : String) : List RunEventEnvelope := (b.runEvents.get? runId).getD []

def claimsOf (runId : String) : OrdMap String RunEventDeliveryClaim := (b.runEventClaims.get? runId).getD .empty

/-- Delivery, expiry and cancellation race for a pending record, and one of them wins. -/
def resolvePendingEventWait (now : Timestamp) (runId waitId : String) (status : EventWaitStatus)
    (unlessBuffered : Option (String × Timestamp)) : Reply Bool :=
  match b.findEventWait runId waitId with
  | none => (.ok false, b)
  | some wait =>
    if wait.status ≠ .pending then (.ok false, b)
    else if unlessBuffered.any fun cutoff => hasRetainedRunEvent (b.mailboxOf runId) cutoff.1 (some cutoff.2) then
      (.ok false, b)
    else
      let resolve (w : PersistedPendingEventWait) : PersistedPendingEventWait :=
        { w with
          status := status
          claimedAt := if status = .delivered ∨ status = .expired then some now else w.claimedAt }
      (.ok true, (b.changeEventWait runId waitId resolve).advanceRunRetentionRevision runId)

def reopenWait (wait : PersistedPendingEventWait) : PersistedPendingEventWait :=
  { wait with status := .pending, claimedAt := none, recoveryClaimedAt := none, claimedEventId := none }

def isClaimedStatus (status : EventWaitStatus) : Bool := status = .delivered || status = .expired

def restorePendingEventWait (runId waitId : String) : Reply Bool :=
  match b.findEventWait runId waitId with
  | none => (.ok false, b)
  | some wait =>
    if isClaimedStatus wait.status then
      (.ok true, (b.changeEventWait runId waitId reopenWait).advanceRunRetentionRevision runId)
    else (.ok false, b)

def isTimedClaim (wait : PersistedPendingEventWait) : Bool :=
  wait.claimedAt.isSome && ((wait.waitKind = .delay && wait.status = .delivered) ||
    (wait.waitKind = .event && wait.status = .expired))

def listTimedEventWaitClaims (runId : String) : List PersistedPendingEventWait :=
  (b.eventWaitsOf runId).filter isTimedClaim

def reserveTimedEventWaitClaim (runId waitId : String) (claimedAt staleBefore : Timestamp) : Reply Bool :=
  match b.findEventWait runId waitId with
  | none => (.ok false, b)
  | some wait =>
    if !isTimedClaim wait || wait.recoveryClaimedAt.any (· > staleBefore) then (.ok false, b)
    else (.ok true, (b.changeEventWait runId waitId fun w =>
      { w with recoveryClaimedAt := some claimedAt }).advanceRunRetentionRevision runId)

def finalizeTimedEventWaitClaim (runId waitId : String) : Reply Unit :=
  if (b.findEventWait runId waitId).isNone then (.ok (), b)
  else (.ok (), (b.changeEventWait runId waitId fun w =>
    { w with claimedAt := none, recoveryClaimedAt := none }).advanceRunRetentionRevision runId)

/-! ## Buffered events -/

def setMailbox (runId : String) (mailbox : List RunEventEnvelope) : MemoryBackend :=
  { b with runEvents := b.runEvents.set runId mailbox }

def retainsMailbox (status : WorkflowStatus) : Bool :=
  status = .pending || status = .running || status = .waiting || status = .failed

def isOrphanMailbox (runId : String) : Bool :=
  !((b.runs.get? runId).any fun run => retainsMailbox run.status) && (b.claimsOf runId).size = 0

def evictOrphans : Nat → List String → OrdMap String (List RunEventEnvelope) →
    OrdMap String (List RunEventEnvelope)
  | 0, _, events => events
  | _, [], events => events
  | overflow + 1, runId :: runIds, events =>
    if b.isOrphanMailbox runId then evictOrphans overflow runIds (events.erase runId)
    else evictOrphans (overflow + 1) runIds events

def evictOrphanRunEventMailboxes (requiredSlots : Nat) : MemoryBackend :=
  let overflow := b.runEvents.size + requiredSlots - MAX_WORKFLOW_RUN_EVENT_MAILBOXES
  { b with runEvents := b.evictOrphans overflow b.runEvents.keys b.runEvents }

def withRoom (runId : String) : MemoryBackend :=
  if b.runEvents.contains runId then b else b.evictOrphanRunEventMailboxes 1

def appendRunEvent (runId : String) (event : RunEventEnvelope) : Reply Unit :=
  let b := b.withRoom runId
  if !b.runEvents.contains runId ∧ b.runEvents.size ≥ MAX_WORKFLOW_RUN_EVENT_MAILBOXES then
    (.error (.orchestration "Run event mailbox capacity reached"), b)
  else
    let order := b.nextRunEventPublicationOrder
    let b := { b with nextRunEventPublicationOrder := order + 1 }
    match appendRetainedRunEvent (b.mailboxOf runId) { event with publicationOrder := some order }
        (b.claimsOf runId).size with
    | .error e => (.error e, b)
    | .ok mailbox => (.ok (), (b.setMailbox runId mailbox).advanceRunRetentionRevision runId)

theorem withRoom_eq (runId : String) : ∃ events, b.withRoom runId = { b with runEvents := events } := by
  unfold withRoom evictOrphanRunEventMailboxes
  split
  · exact ⟨b.runEvents, rfl⟩
  · exact ⟨_, rfl⟩

/-- An empty mailbox stays while it holds the place of a claimed event. -/
def deleteEmptyRunEventMailbox (runId : String) : MemoryBackend :=
  if b.mailboxOf runId = [] ∧ (b.claimsOf runId).size = 0 then
    { b with runEvents := b.runEvents.erase runId }
  else b

def removeRunEvent (runId eventId : String) : Reply Bool :=
  if (b.mailboxOf runId).any fun e => e.id = eventId then
    let kept := (b.mailboxOf runId).eraseP fun e => e.id = eventId
    let b := (b.setMailbox runId kept).deleteEmptyRunEventMailbox runId
    (.ok true, b.advanceRunRetentionRevision runId)
  else (.ok false, b)

def takeRunEvent (runId eventName : String) : Reply (Option RunEventEnvelope) :=
  if !b.runEvents.contains runId then (.ok none, b)
  else match takeRetainedRunEvent (b.mailboxOf runId) eventName none with
    | none => (.ok none, b.deleteEmptyRunEventMailbox runId)
    | some (taken, mailbox) =>
      let b := (b.setMailbox runId mailbox).deleteEmptyRunEventMailbox runId
      (.ok (some taken), b.advanceRunRetentionRevision runId)

def peekRunEvent (runId eventName : String) : Option RunEventEnvelope :=
  (b.mailboxOf runId).find? fun e => e.eventName = eventName

def claimWait (now : Timestamp) (eventId : String) (wait : PersistedPendingEventWait) : PersistedPendingEventWait :=
  { wait with status := .delivered, claimedAt := some now, claimedEventId := some eventId }

def claimRunEventForWait (now : Timestamp) (runId waitId eventName : String)
    (publishedBefore : Option Timestamp) : Reply (Option RunEventEnvelope) :=
  match b.findEventWait runId waitId with
  | none => (.ok none, b)
  | some wait =>
    if wait.status ≠ .pending then (.ok none, b)
    else match takeRetainedRunEvent (b.mailboxOf runId) eventName publishedBefore with
      | none => (.ok none, b)
      | some (taken, mailbox) =>
        let b := (b.setMailbox runId mailbox).changeEventWait runId waitId (claimWait now taken.id)
        let claims := (b.claimsOf runId).set taken.id ⟨claimWait now taken.id wait, taken, now⟩
        (.ok (some taken),
          advanceRunRetentionRevision { b with runEventClaims := b.runEventClaims.set runId claims } runId)

def listRunEventDeliveryClaims (runId : String) : List RunEventDeliveryClaim := (b.claimsOf runId).values

def reserveRunEventDeliveryClaim (runId waitId eventId : String) (claimedAt staleBefore : Timestamp) :
    Reply Bool :=
  match (b.claimsOf runId).get? eventId with
  | none => (.ok false, b)
  | some claim =>
    if claim.wait.id ≠ waitId ∨ claim.wait.recoveryClaimedAt.any (· > staleBefore) then (.ok false, b)
    else
      let claims := (b.claimsOf runId).set eventId
        { claim with wait := { claim.wait with recoveryClaimedAt := some claimedAt } }
      let b := { b with runEventClaims := b.runEventClaims.set runId claims }
      let b := if (b.findEventWait runId waitId).isNone then b
        else b.changeEventWait runId waitId fun w => { w with recoveryClaimedAt := some claimedAt }
      (.ok true, b.advanceRunRetentionRevision runId)

def releaseRunEventClaim (runId eventId : String) : MemoryBackend :=
  match b.runEventClaims.get? runId with
  | none => b
  | some claims =>
    let claims := claims.erase eventId
    if claims.size = 0 then { b with runEventClaims := b.runEventClaims.erase runId }
    else { b with runEventClaims := b.runEventClaims.set runId claims }

def restoreRunEvent (runId : String) (event : RunEventEnvelope) : Reply Unit :=
  let b := b.setMailbox runId (restoreRetainedRunEvent (b.mailboxOf runId) event)
  (.ok (), (b.releaseRunEventClaim runId event.id).advanceRunRetentionRevision runId)

/-- The event goes back even when its wait belongs to another actor by now. -/
def restoreRunEventDelivery (runId waitId : String) (event : RunEventEnvelope) : Reply Bool :=
  match (b.claimsOf runId).get? event.id with
  | none => (.ok false, b)
  | some claim =>
    if claim.wait.id ≠ waitId then (.ok false, b)
    else
      let restored := (b.findEventWait runId waitId).any fun w => isClaimedStatus w.status
      let b := if restored then b.changeEventWait runId waitId reopenWait else b
      let b := b.setMailbox runId (restoreRetainedRunEvent (b.mailboxOf runId) claim.event)
      (.ok restored, (b.releaseRunEventClaim runId event.id).advanceRunRetentionRevision runId)

def finalizeRunEventDelivery (runId eventId : String) (delivered : Bool) : Reply Unit :=
  let settled := match (b.claimsOf runId).get? eventId with
    | none => b
    | some claim =>
      let b := if (b.findEventWait runId claim.wait.id).isNone then b
        else b.changeEventWait runId claim.wait.id (settleClaimedWait delivered eventId)
      b.advanceRunRetentionRevision runId
  let released := settled.releaseRunEventClaim runId eventId
  (.ok (), if released.runEvents.contains runId then released.deleteEmptyRunEventMailbox runId else released)

def hasRunEventDeliveryReceipt (runId eventId : String) : Bool :=
  (b.eventWaitsOf runId).any fun w => w.deliveredEventId = some eventId

/-! ## Queue -/

def enqueue (job : WorkflowQueueItem) : Reply Unit :=
  if b.queue.length ≥ b.maxQueueSize then
    (.error (.orchestration s!"Queue full (max: {b.maxQueueSize}). Cannot enqueue job: {job.runId}"), b)
  else
    let priority := job.priority.getD 0
    (.ok (), advanceRunRetentionRevision { b with
      queue := insertBefore (fun j => j.priority.getD 0 < priority) job b.queue
      terminalRetryQueued := b.terminalRetryQueued.set job.runId () } job.runId)

def dequeue : Reply (Option WorkflowQueueItem) :=
  match b.queue with
  | [] => (.ok none, b)
  | job :: queue =>
    let b := { b with queue := queue }
    let pending := (b.terminalRetryPending.get? job.runId).getD 0 + 1
    (.ok (some job), if b.terminalRetryQueued.contains job.runId then
      { b with terminalRetryPending := b.terminalRetryPending.set job.runId pending }
    else b)

def acknowledge (runId : String) : Reply Unit :=
  let pending := (b.terminalRetryPending.get? runId).getD 0
  let b := if pending > 1 then
      { b with terminalRetryPending := b.terminalRetryPending.set runId (pending - 1) }
    else { b with terminalRetryPending := b.terminalRetryPending.erase runId }
  let stillQueued := b.queue.any fun item => item.runId = runId
  (.ok (), if !stillQueued && !b.terminalRetryPending.contains runId then
    { b with terminalRetryQueued := b.terminalRetryQueued.erase runId }
  else b)

/-! ## Locks and stalled runs -/

def acquireLock (now : Timestamp) (lockId runId : String) (duration : Int) : Reply (Option String) :=
  if (b.locks.get? runId).any fun lock => lock.expiresAt > now then (.ok none, b)
  else (.ok (some lockId), { b with locks := b.locks.set runId ⟨lockId, now + duration⟩ })

def releaseLock (runId : String) (lockId : Option String) : Reply Unit :=
  match b.locks.get? runId with
  | none => (.ok (), b)
  | some lock =>
    if lockId.any (· ≠ lock.lockId) then (.ok (), b)
    else (.ok (), { b with locks := b.locks.erase runId })

def extendLock (now : Timestamp) (runId : String) (duration : Int) (lockId : Option String) : Reply Bool :=
  match b.locks.get? runId with
  | none => (.ok false, b)
  | some lock =>
    if lock.expiresAt ≤ now ∨ lockId.any (· ≠ lock.lockId) then (.ok false, b)
    else (.ok true, { b with locks := b.locks.set runId { lock with expiresAt := now + duration } })

def lastActivity (run : WorkflowRun) : Timestamp :=
  (run.heartbeatAt.or run.startedAt).getD run.createdAt

def claimStalledRun (now : Timestamp) (runId workerId : String) (stalledThreshold : Int) : Reply Bool :=
  match b.runs.get? runId with
  | none => (.ok false, b)
  | some run =>
    if run.status ≠ .running ∨ now - lastActivity run < stalledThreshold ∨
        (b.stalledClaims.get? runId).any (fun claim => claim.expiresAt > now) then (.ok false, b)
    else
      let claimed := { run with
        workerId := some workerId
        startedAt := some (run.startedAt.getD now)
        heartbeatAt := some now }
      (.ok true, publishRunObservation { b with
        stalledClaims := b.stalledClaims.set runId ⟨workerId, now + stalledThreshold⟩
        runs := b.runs.set runId claimed } runId)

/-- The two counters outlive a clear. -/
def clear : Reply Unit :=
  (.ok (), {
    nextRunEventPublicationOrder := b.nextRunEventPublicationOrder
    nextRunRetentionGeneration := b.nextRunRetentionGeneration
    maxQueueSize := b.maxQueueSize })

end MemoryBackend

end Veryfront.Workflow
