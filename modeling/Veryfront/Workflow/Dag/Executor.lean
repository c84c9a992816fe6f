import Veryfront.Workflow.Dag.Batch
import Veryfront.Workflow.Dag.ContextPatch

/-!
# The graph executor

One call of `executeUnwrapped`. The nodes that are ready, and those that a worker left running when
it died, form a queue. Batch after batch is taken from it, recorded as running, run, and settled,
until the queue is empty, a node parks or fails, or the call is paused. What the call does not
control (the nodes themselves, the replies of the backend, the abort signal and the death of the
worker) is an argument. The contexts of the nodes and the checkpoints do not bear on any of this and
are left out.
-/

namespace Veryfront.Workflow

open Veryfront.Lib

/-! ## A call and its surroundings -/

structure NodeExecutionResult where
  state : NodeState
  waiting : Bool
  waitingNode : Option String := none
  waitingNodes : List String := []

/-- How an `executeNode` promise settles. A node gets a snapshot of the node states and leaves it as
it changed it. -/
inductive NodeExecution
  | rejected (message : String)
  | ownershipLost
  | fulfilled (result : NodeExecutionResult) (nodeStateSnapshot : NodeStates)

inductive PublishReply
  | persisted
  | refused
  /-- The call throws, whether or not the write took effect. -/
  | threw (tookEffect : Bool)
deriving DecidableEq

/-- Where an abort, or the death of the worker, can end a call. -/
inductive AbortPoint
  | start | batch | admission | execution | settlement | pause
deriving DecidableEq

inductive Boundary
  | admission | settlement
deriving DecidableEq

/-- The configuration and the scope of a call, and what each call out of its batches comes to. The
batches are numbered from zero. -/
structure DAGCall where
  runId : String
  rootRunId : String
  maxConcurrency : Nat
  maxConcurrency_pos : 0 < maxConcurrency
  resumingWait : Bool
  rootKeyspace : Bool
  startFromNode : Option String := none
  subWorkflowReservations : Nat → SubWorkflowReservations
  executeNode : Nat → String → NodeStates → NodeExecution
  onNodeStatesChanged : Nat → Boundary → PublishReply
  /-- `false` when `onChildRecoveryAdmitted` reports that the ownership of the run has changed. -/
  onChildRecoveryAdmitted : Nat → Bool
  shouldPause : Nat → Bool
  aborts : Nat → AbortPoint → Bool
  now : Nat → Timestamp

/-- Only the top-level run has a row in the backend to write. -/
def DAGCall.isDurableRun (call : DAGCall) : Bool := call.runId = call.rootRunId

structure DAGExecutionResult where
  completed : Bool
  waiting : Bool
  paused : Bool := false
  nodeStates : NodeStates
  waitingNode : Option String := none
  waitingNodes : List String := []
  stalledWaitNodes : List String := []
  error : Option String := none

inductive DAGEnd
  | returned (result : DAGExecutionResult)
  | threw
  | ownershipLost
  | invalidGraph (error : VeryfrontError)
  /-- Never reached: see `executeUnwrapped_ends`. -/
  | outOfFuel

/-- The variables of the loop. The last three are what the rest of the system sees of it. -/
structure Scheduler where
  nodeStates : NodeStates
  publishedNodeStates : NodeStates
  inDegree : OrdMap String Int
  ready : List String
  recoveryQueued : List String
  resumableCompositeIds : List String
  /-- The node states of the run record. -/
  persisted : NodeStates
  /-- The executions started, oldest first, each with the node states that it was given. -/
  started : List (String × NodeStates) := []
  /-- The nodes taken into a batch so far. -/
  admitted : List String := []

/-! ## Recovery -/

def isResumableComposite (type : NodeType) : Bool :=
  match type with
  | .branch | .parallel | .map | .loop | .subWorkflow => true
  | .step | .wait => false

structure ExhaustedNode where
  nodeId : String
  attempts : Nat
  maxAttempts : Nat

structure RecoveryQueue where
  ready : List String
  recoveryQueued : List String := []
  resumableComposites : List String := []
  exhausted : List ExhaustedNode := []

/-- What becomes of one node without undone predecessors. A node recorded as running was left so by
a worker that died, unless it encloses or is the decision that the run waited for. -/
def recoverNode (resumingWait : Bool) (g : DAGGraph) (nodeStates : NodeStates) (q : RecoveryQueue)
    (nodeId : String) (degree : Int) : RecoveryQueue :=
  if degree ≠ 0 ∨ nodeId ∈ q.ready then q
  else match nodeStates.get? nodeId, g.nodeMap.get? nodeId with
    | some state, some node =>
      if state.status ≠ .running then q
      else if resumingWait && isResumableComposite node.config.type then
        { q with resumableComposites := q.resumableComposites ++ [nodeId] }
      else if node.config.type = .wait then q
      else
        let maxAttempts := node.maxAttempts.getD 1
        if state.attempt > maxAttempts then
          { q with exhausted := q.exhausted ++ [⟨nodeId, state.attempt, maxAttempts⟩] }
        else
          { q with recoveryQueued := q.recoveryQueued ++ [nodeId], ready := q.ready ++ [nodeId] }
    | _, _ => q

def recoverRunningNodes (resumingWait : Bool) (g : DAGGraph) (nodeStates : NodeStates)
    (inDegree : OrdMap String Int) : RecoveryQueue :=
  inDegree.entries.foldl (fun q (nodeId, degree) => recoverNode resumingWait g nodeStates q nodeId degree)
    { ready := getReadyNodes inDegree nodeStates }

def exhaustNode (completedAt : Timestamp) (nodeStates : NodeStates) (x : ExhaustedNode) : NodeStates :=
  match nodeStates.get? x.nodeId with
  | none => nodeStates
  | some state =>
    nodeStates.set x.nodeId { state with
      status := .failed
      error := some
        s!"Interrupted after {x.attempts} of {x.maxAttempts} attempt(s); retry budget exhausted"
      completedAt := some completedAt }

def exhaustedResult (nodeStates : NodeStates) (completedAt : Timestamp) (first : ExhaustedNode)
    (rest : List ExhaustedNode) : DAGExecutionResult where
  completed := false
  waiting := false
  nodeStates := (first :: rest).foldl (exhaustNode completedAt) nodeStates
  error := some (s!"Node \"{first.nodeId}\" was interrupted after {first.attempts} of " ++
    s!"{first.maxAttempts} attempt(s); retry budget exhausted")

/-! ## Admission -/

def runningState (existing : Option NodeState) (nodeId : String) (isRecovery : Bool)
    (batchStartedAt : Timestamp) : NodeState :=
  match existing with
  | none => { nodeId, status := .running, attempt := 1, startedAt := some batchStartedAt }
  | some state =>
    { state with
      nodeId
      status := .running
      attempt := if state.status = .running ∧ ¬ isRecovery then state.attempt else state.attempt + 1
      startedAt := if state.status = .running then state.startedAt.or (some batchStartedAt)
        else some batchStartedAt
      completedAt := none
      error := none
      output := none }

def admitNode (batchStartedAt : Timestamp) (s : Scheduler) (nodeId : String) : Scheduler :=
  let isRecovery := nodeId ∈ s.recoveryQueued
  { s with
    recoveryQueued := s.recoveryQueued.filter (· ≠ nodeId)
    nodeStates := s.nodeStates.set nodeId
      (runningState (s.nodeStates.get? nodeId) nodeId isRecovery batchStartedAt)
    admitted := s.admitted ++ [nodeId] }

def admitBatch (batchStartedAt : Timestamp) (s : Scheduler) (batch : List String) : Scheduler :=
  batch.foldl (admitNode batchStartedAt) s

/-- Writes what has changed since the last write onto the run record. -/
def publishNodeStates (reply : PublishReply) (s : Scheduler) : Scheduler × Option DAGEnd :=
  let persisted := applyRecordPatch s.persisted (createRecordPatch s.publishedNodeStates s.nodeStates)
  match reply with
  | .persisted => ({ s with persisted, publishedNodeStates := s.nodeStates }, none)
  | .refused => (s, some .ownershipLost)
  | .threw true => ({ s with persisted }, some .threw)
  | .threw false => (s, some .threw)

def commitAdmission (call : DAGCall) (round : Nat) (recovered : Bool) (s : Scheduler) :
    Scheduler × Option DAGEnd :=
  if call.isDurableRun then
    publishNodeStates (call.onNodeStatesChanged round .admission) s
  else if call.rootKeyspace && recovered && !call.onChildRecoveryAdmitted round then
    (s, some .ownershipLost)
  else (s, none)

/-! ## Settlement -/

inductive BatchOutcome
  | waiting (nodeId : String)
  | failed (nodeId : String) (error : String)

structure Settlement where
  nodeStates : NodeStates
  inDegree : OrdMap String Int
  /-- The earliest node that parked or failed. -/
  outcome : Option BatchOutcome := none
  waitingNodes : List String := []

def failedState (nodeId : String) (error : String) (base : Option NodeState) (completedAt : Timestamp) :
    NodeState where
  nodeId
  status := .failed
  error := some error
  attempt := (base.map (·.attempt)).getD 0
  startedAt := base.bind (·.startedAt)
  completedAt := some completedAt

def settledState (state : NodeState) (base : Option NodeState) : NodeState :=
  { state with
    attempt := max state.attempt ((base.map (·.attempt)).getD 0)
    startedAt := base.bind (·.startedAt) }

/-- A composite reports the children that actually suspended, and a wait reports itself. -/
def nestedWaitingNodes (nodeId : String) (result : NodeExecutionResult) : List String :=
  if result.waitingNodes = [] then [result.waitingNode.getD nodeId] else result.waitingNodes

def settleNode (g : DAGGraph) (completedAt : Timestamp) (baseNodeStates : NodeStates) (t : Settlement)
    (nodeId : String) : NodeExecution → Except DAGEnd Settlement
  | .ownershipLost => .error .ownershipLost
  | .rejected message =>
    .ok { t with
      nodeStates := t.nodeStates.set nodeId
        (failedState nodeId message (baseNodeStates.get? nodeId) completedAt)
      outcome := t.outcome.or (some (.failed nodeId message)) }
  | .fulfilled result nodeStateSnapshot =>
    let state := settledState result.state (baseNodeStates.get? nodeId)
    let nodeStates := (applyRecordPatch t.nodeStates
      (createRecordPatch baseNodeStates nodeStateSnapshot)).set nodeId state
    if result.waiting then
      let waitingNodes := nestedWaitingNodes nodeId result
      .ok { t with
        nodeStates
        waitingNodes := t.waitingNodes ++ waitingNodes
        outcome := t.outcome.or (some (.waiting (waitingNodes.headD nodeId))) }
    else if result.state.status = .failed then
      .ok { t with
        nodeStates
        outcome := t.outcome.or (some (.failed nodeId (result.state.error.getD "Unknown error"))) }
    else if result.state.status.done then
      .ok { t with nodeStates, inDegree := lowerDegrees (fun _ => true) t.inDegree (g.dependents nodeId) }
    else
      .ok { t with nodeStates }

/-- Settles the whole batch, in its order, before its outcome counts. -/
def settleBatch (g : DAGGraph) (completedAt : Timestamp) (baseNodeStates : NodeStates)
    (execute : String → NodeExecution) : List String → Settlement → Except DAGEnd Settlement
  | [], t => .ok t
  | nodeId :: rest, t => do
    let t ← settleNode g completedAt baseNodeStates t nodeId (execute nodeId)
    settleBatch g completedAt baseNodeStates execute rest t

def commitSettlement (call : DAGCall) (round : Nat) (s : Scheduler) : Scheduler × Option DAGEnd :=
  if call.isDurableRun then publishNodeStates (call.onNodeStatesChanged round .settlement) s
  else (s, none)

/-- The newly unblocked nodes go behind the queue, unless they are queued. -/
def requeue (s : Scheduler) : Scheduler :=
  { s with ready := appendNew s.ready (getReadyNodes s.inDegree s.nodeStates) }

def concludeBatch (call : DAGCall) (round : Nat) (t : Settlement) (s : Scheduler) :
    Scheduler × Option DAGEnd :=
  match t.outcome with
  | some (.waiting nodeId) =>
    (s, some (.returned
      { completed := false
        waiting := true
        nodeStates := s.nodeStates
        waitingNode := some nodeId
        waitingNodes := t.waitingNodes }))
  | some (.failed nodeId error) =>
    (s, some (.returned
      { completed := false
        waiting := false
        nodeStates := s.nodeStates
        error := some s!"Node \"{nodeId}\" failed: {error}" }))
  | none =>
    let s := requeue s
    if call.isDurableRun && !s.ready.isEmpty then
      if call.aborts round .pause then (s, some .threw)
      else if call.shouldPause round then
        (s, some (.returned
          { completed := false, waiting := false, paused := true, nodeStates := s.nodeStates }))
      else (s, none)
    else (s, none)

def settle (call : DAGCall) (g : DAGGraph) (round : Nat) (batch : List String) (s : Scheduler) :
    Scheduler × Option DAGEnd :=
  match settleBatch g (call.now round) s.nodeStates
      (fun nodeId => call.executeNode round nodeId s.nodeStates) batch
      { nodeStates := s.nodeStates, inDegree := s.inDegree } with
  | .error e => (s, some e)
  | .ok t =>
    match commitSettlement call round { s with nodeStates := t.nodeStates, inDegree := t.inDegree } with
    | (s, some e) => (s, some e)
    | (s, none) =>
      if call.aborts round .settlement then (s, some .threw) else concludeBatch call round t s

/-! ## The loop -/

def collisionResult (nodeStates : NodeStates) (c : ChildCollision) : DAGExecutionResult where
  completed := false
  waiting := false
  nodeStates
  error := some (s!"Concurrent nodes \"{c.firstNodeId}\" and \"{c.secondNodeId}\" both declare child id " ++
    s!"\"{c.childId}\"")

/-- An abort or a death of the worker after the admission ends the call before any node of the
batch starts, and one during the execution after all of them have. -/
def executeBatch (call : DAGCall) (g : DAGGraph) (round : Nat) (batch : List String) (s : Scheduler) :
    Scheduler × Option DAGEnd :=
  if call.aborts round .admission then (s, some .threw)
  else
    let s := { s with started := s.started ++ batch.map fun nodeId => (nodeId, s.nodeStates) }
    if call.aborts round .execution then (s, some .threw)
    else settle call g round batch s

def runBatch (call : DAGCall) (g : DAGGraph) (round : Nat) (s : Scheduler) : Scheduler × Option DAGEnd :=
  if call.aborts round .batch then (s, some .threw)
  else
    match selectBatch g (call.subWorkflowReservations round) s.resumableCompositeIds
        ⟨s.ready.take call.maxConcurrency, s.ready.drop call.maxConcurrency⟩ with
    | .error collision => (s, some (.returned (collisionResult s.nodeStates collision)))
    | .ok ⟨batch, ready⟩ =>
      let recovered := batch.any (· ∈ s.recoveryQueued)
      match commitAdmission call round recovered (admitBatch (call.now round) { s with ready } batch) with
      | (s, some e) => (s, some e)
      | (s, none) => executeBatch call g round batch s

/-- `JSON.stringify` of a string. -/
def jsonString (s : String) : String :=
  let escape (c : Char) : String :=
    if c = '"' then "\\\"" else if c = '\\' then "\\\\"
    else if c = '\n' then "\\n" else if c = '\r' then "\\r" else if c = '\t' then "\\t"
    else if c.toNat = 8 then "\\b" else if c.toNat = 12 then "\\f"
    else if c.toNat < 32 then "\\u00" ++ String.ofList [(c.toNat / 16).digitChar, (c.toNat % 16).digitChar]
    else String.singleton c
  "\"" ++ String.join (s.toList.map escape) ++ "\""

def NodeStatus.text : NodeStatus → String
  | .pending => "pending"
  | .running => "running"
  | .completed => "completed"
  | .failed => "failed"
  | .skipped => "skipped"

def getUnfinishedNodeDetails (nodes : List WorkflowNode) (nodeStates : NodeStates) :
    List (WorkflowNode × NodeStatus) :=
  nodes.filterMap fun node =>
    let status := ((nodeStates.get? node.id).map (·.status)).getD .pending
    if status.done then none else some (node, status)

def stalledError (call : DAGCall) (unfinished : List (WorkflowNode × NodeStatus)) : String :=
  let graph := if call.isDurableRun then "the root graph" else s!"child graph {jsonString call.runId}"
  let details := ", ".intercalate
    ((unfinished.take 10).map fun (node, status) => s!"{jsonString node.id} ({status.text})")
  let omitted := if unfinished.length > 10 then s!", and {unfinished.length - 10} more" else ""
  s!"Workflow run {jsonString call.rootRunId} stalled in {graph}; unfinished nodes: {details}{omitted}"

/-- With nothing left to schedule, the graph is complete or stalled. When nothing but parked waits
and the nodes behind them is unfinished, the result names the waits. -/
def finish (call : DAGCall) (nodes : List WorkflowNode) (nodeStates : NodeStates) : DAGExecutionResult :=
  let unfinished := getUnfinishedNodeDetails nodes nodeStates
  if unfinished = [] then { completed := true, waiting := false, nodeStates }
  else
    let isParkedWait := fun (x : WorkflowNode × NodeStatus) =>
      decide (x.2 = .running) && decide (x.1.config.type = .wait)
    let onlyParkedWaitsAndDependents := unfinished.all fun x => decide (x.2 = .pending) || isParkedWait x
    { completed := false
      waiting := false
      nodeStates
      stalledWaitNodes :=
        if onlyParkedWaitsAndDependents then (unfinished.filter isParkedWait).map (·.1.id) else []
      error := some (stalledError call unfinished) }

def runBatches (call : DAGCall) (nodes : List WorkflowNode) (g : DAGGraph) :
    Nat → Nat → Scheduler → Scheduler × DAGEnd
  | 0, _, s => (s, .outOfFuel)
  | fuel + 1, round, s =>
    if s.ready = [] then (s, .returned (finish call nodes s.nodeStates))
    else
      match runBatch call g round s with
      | (s, some e) => (s, e)
      | (s, none) => runBatches call nodes g fuel (round + 1) s

def initialScheduler (nodeStates : NodeStates) (inDegree : OrdMap String Int) (recovery : RecoveryQueue) :
    Scheduler where
  nodeStates
  publishedNodeStates := nodeStates
  inDegree
  ready := recovery.resumableComposites ++ recovery.ready
  recoveryQueued := recovery.recoveryQueued
  resumableCompositeIds := recovery.resumableComposites
  persisted := nodeStates

def cyclicResult (nodeStates : NodeStates) : DAGExecutionResult where
  completed := false
  waiting := false
  nodeStates
  error := some "Workflow DAG contains cycles"

/-- What a call has done when it ends. -/
structure DAGExecution where
  ending : DAGEnd
  started : List (String × NodeStates) := []
  admitted : List String := []
  persisted : NodeStates

def executeUnwrapped (call : DAGCall) (nodes : List WorkflowNode) (nodeStates : NodeStates) : DAGExecution :=
  if call.aborts 0 .start then { ending := .threw, persisted := nodeStates }
  else match buildGraph nodes with
    | .error e => { ending := .invalidGraph e, persisted := nodeStates }
    | .ok g =>
      let inDegree := updateInDegreesForCompletedNodes nodeStates g
      match hasCycle nodes g with
      | none => { ending := .outOfFuel, persisted := nodeStates }
      | some true =>
        { ending := .returned (cyclicResult nodeStates), persisted := nodeStates }
      | some false =>
        let recovery := match call.startFromNode.filter (· ≠ "") with
          | some nodeId => ({ ready := [nodeId] } : RecoveryQueue)
          | none => recoverRunningNodes call.resumingWait g nodeStates inDegree
        match recovery.exhausted with
        | first :: rest =>
          { ending := .returned (exhaustedResult nodeStates (call.now 0) first rest), persisted := nodeStates }
        | [] =>
          let r := runBatches call nodes g (nodes.length + 1) 0 (initialScheduler nodeStates inDegree recovery)
          { ending := r.2, started := r.1.started, admitted := r.1.admitted, persisted := r.1.persisted }

end Veryfront.Workflow
