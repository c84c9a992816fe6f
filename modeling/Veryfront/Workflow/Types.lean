import Veryfront.Lib.OrdMap

/-!
# Workflow data

The durable records of a workflow run: the run itself, the states of its nodes, the approvals and
event waits it is parked on, its buffered events and its queue jobs. User data (payloads, step
outputs, decision data) is opaque to the engine and is carried as its JSON text. Times are
milliseconds.
-/

namespace Veryfront.Workflow

open Veryfront.Lib

abbrev JsonText := String
abbrev Timestamp := Int

inductive WorkflowStatus
  | pending | running | waiting | completed | failed | cancelled
deriving DecidableEq, Repr

inductive NodeStatus
  | pending | running | completed | failed | skipped
deriving DecidableEq, Repr

inductive ApprovalStatus
  | pending | approved | rejected | expired
deriving DecidableEq, Repr

inductive EventWaitStatus
  | pending | delivered | expired | cancelled
deriving DecidableEq, Repr

inductive DurableTimedWaitKind
  | delay | event
deriving DecidableEq, Repr

/-- What a node was started with: any JSON for a step, the wait's own fields for a wait. -/
inductive NodeInput
  | json (value : JsonText)
  | wait (type : String) (runIds : Option (List String)) (rest : JsonText)
deriving DecidableEq, Repr

/-- What a node ended with. The last three are the outcomes that the runtime writes onto a wait. -/
inductive NodeOutput
  | json (value : JsonText)
  | decision (approved : Bool) (approver : String) (comment : Option String) (data : Option JsonText)
  | event (eventName : String) (payload : Option JsonText)
  | delayed
deriving DecidableEq, Repr

inductive ContextEntry
  | json (value : JsonText)
  | outcome (output : NodeOutput) (at_ : Timestamp)
deriving DecidableEq, Repr

structure NodeState where
  nodeId : String
  status : NodeStatus
  input : Option NodeInput := none
  output : Option NodeOutput := none
  error : Option String := none
  attempt : Nat
  startedAt : Option Timestamp := none
  completedAt : Option Timestamp := none
  waitInstanceId : Option String := none
deriving DecidableEq, Repr

structure RunError where
  message : String
  stack : Option String := none
  code : Option String := none
  detail : Option JsonText := none
deriving DecidableEq, Repr

abbrev NodeStates := OrdMap String NodeState
abbrev WorkflowContext := OrdMap String ContextEntry

structure WorkflowRun where
  id : String
  workflowId : String
  status : WorkflowStatus
  input : JsonText
  output : Option JsonText := none
  nodeStates : NodeStates
  currentNodes : List String
  context : WorkflowContext
  error : Option RunError := none
  createdAt : Timestamp
  startedAt : Option Timestamp := none
  heartbeatAt : Option Timestamp := none
  completedAt : Option Timestamp := none
  /-- `none` when the run record carries no policy snapshot. -/
  sourceIntegrationPolicy : Option JsonText
  workerId : Option String := none
  traceContext : Option String := none
deriving DecidableEq

/-- A run patch. The outer `Option` of a field says whether the patch carries it, and the inner
one of an optional field whether it sets or clears it. -/
structure WorkflowRunUpdate where
  status : Option WorkflowStatus := none
  output : Option (Option JsonText) := none
  nodeStates : Option NodeStates := none
  nodeStateDeletes : List String := []
  currentNodes : Option (List String) := none
  context : Option WorkflowContext := none
  contextDeletes : List String := []
  error : Option (Option RunError) := none
  startedAt : Option (Option Timestamp) := none
  heartbeatAt : Option (Option Timestamp) := none
  completedAt : Option (Option Timestamp) := none
  workerId : Option (Option String) := none
  traceContext : Option (Option String) := none
  /-- Names of other fields that an untyped caller put into the patch. -/
  immutableFields : List String := []
deriving DecidableEq

/-- A restore replaces both maps, so it has to carry them. -/
structure WorkflowRunStateSnapshot where
  fields : WorkflowRunUpdate
  nodeStates : NodeStates
  context : WorkflowContext
deriving DecidableEq

structure PersistedPendingApproval where
  id : String
  nodeId : String
  message : String
  payload : JsonText
  approvers : Option (List String) := none
  requestedAt : Timestamp
  expiresAt : Option Timestamp := none
  status : ApprovalStatus
  decidedBy : Option String := none
  decidedAt : Option Timestamp := none
  comment : Option String := none
  notificationError : Option String := none
  waitInstanceId : Option String := none
  responseSchemaId : Option String := none
  reconciliationPending : Bool := false
  decisionData : Option JsonText := none
  recoveryClaimedAt : Option Timestamp := none
  recoveryClaimId : Option String := none
deriving DecidableEq, Repr

structure ApprovalDecision where
  approved : Bool
  approver : String
  comment : Option String := none
  data : Option JsonText := none
deriving DecidableEq, Repr

structure PersistedPendingEventWait where
  id : String
  runId : String
  nodeId : String
  eventName : String
  waitKind : DurableTimedWaitKind
  requestedAt : Timestamp
  expiresAt : Option Timestamp := none
  status : EventWaitStatus
  waitInstanceId : Option String := none
  workerId : Option String := none
  claimedAt : Option Timestamp := none
  recoveryClaimedAt : Option Timestamp := none
  claimedEventId : Option String := none
  deliveredEventId : Option String := none
deriving DecidableEq, Repr

structure RunEventEnvelope where
  id : String
  eventName : String
  payload : Option JsonText
  publishedAt : Timestamp
  /-- Sequence number that the in-memory backend adds when it buffers the event. -/
  publicationOrder : Option Nat := none
deriving DecidableEq, Repr

structure RunEventDeliveryClaim where
  wait : PersistedPendingEventWait
  event : RunEventEnvelope
  claimedAt : Timestamp
deriving DecidableEq, Repr

structure Checkpoint where
  id : String
  nodeId : String
  timestamp : Timestamp
  context : WorkflowContext
  nodeStates : NodeStates
deriving DecidableEq

structure WorkflowQueueItem where
  runId : String
  workflowId : String
  input : JsonText
  priority : Option Int := none
  createdAt : Timestamp
deriving DecidableEq, Repr

structure TerminalRunRetentionCandidate where
  runId : String
  workflowId : String
  createdAt : Timestamp
  status : WorkflowStatus
  completedAt : Timestamp
  revision : Nat
deriving DecidableEq, Repr

/-- The registry error that a refused operation raises, with its detail. -/
inductive VeryfrontError
  | resourceNotFound (detail : String)
  | orchestration (detail : String)
  | invalidArgument (detail : String)
deriving DecidableEq, Repr

/-- Two durable records belong to one execution of a wait node. Records written before instance
identities existed match on the node alone. -/
def isSameWaitNodeExecution (candidateNode : String) (candidateInstance : Option String)
    (expectedNode : String) (expectedInstance : Option String) : Bool :=
  candidateNode = expectedNode &&
    (candidateInstance = none || expectedInstance = none || candidateInstance = expectedInstance)

end Veryfront.Workflow
