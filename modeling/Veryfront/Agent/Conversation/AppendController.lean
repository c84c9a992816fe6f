import Veryfront.Agent.Conversation.AppendQueue

/-!
# The queue controller

A flush takes the whole queue, sends it batch by batch, and puts back what it could not send. It
waits for the endpoint between its steps, and everything else may happen while it waits: more events,
an abort, another flush, the end of the controller.
-/

namespace Veryfront.Agent.Conversation

open Veryfront.Lib

abbrev AbortSignalId := Nat

/-! ## A flush -/

inductive AppendAnswer
  | waiting
  | committed (cursors : RunCursors)
  | failed (error : AppendFailure)

structure FlushLocals (ε ω : Type) where
  abortSignal : Option AbortSignalId
  queued : EventQueue ε ω
  cursors : RunCursors
  cursorResyncsThisFlush : Nat := 0
  consecutiveFailures : Nat

/-- The variables of one pass over the batches; `batches` are those from the current one on. -/
structure BatchPass (ε ω : Type) extends FlushLocals ε ω where
  input : EventQueue ε ω
  batches : List (List ε)
  batchStartIndex : Nat := 0

/-- How a flush of the queue ended, when it did not throw. -/
inductive QueueFlushed (ε ω : Type)
  | flushed (cursors : RunCursors)
  | stopped (cursors : RunCursors) (disableReason : DisableReason)
  | retryScheduled (cursors : RunCursors) (pending : EventQueue ε ω) (consecutiveFailures : Nat) (errorMessage : String)
      (retryCause : Option RetryCause)

def QueueFlushed.leavesWork {ε ω : Type} : QueueFlushed ε ω → Bool
  | .flushed _ | .stopped .. => true
  | .retryScheduled _ pending consecutiveFailures _ _ => pending.events.length > 0 && consecutiveFailures > 0

/-- Where a flush waits: for an append, to go on after a resync, or to give its end to the controller. -/
inductive FlushPhase (ε ω : Type)
  | appending (pass : BatchPass ε ω) (answer : AppendAnswer)
  | resumed (locals : FlushLocals ε ω) (pending : EventQueue ε ω)
  | finished (queued : EventQueue ε ω) (result : QueueFlushed ε ω)
  | threw (queued : EventQueue ε ω)

def isAborted (aborted : List AbortSignalId) (abortSignal : Option AbortSignalId) : Bool :=
  abortSignal.any fun signal => aborted.contains signal

section
variable {ε ω : Type} (config : QueueConfig) (ops : EventOps ε ω)

def cursorModeOf (batch : List ε) : CursorMode := if batch.any ops.isPrivate then .durableEventId else .externalSequence

/-- The events of an append with their sidecars. -/
def passQueue (pass : BatchPass ε ω) (batch : List ε) : EventQueue ε ω := pass.input.slice pass.batchStartIndex batch

def passRequest (pass : BatchPass ε ω) (batch : List ε) : Option (AppendRequest ε ω) :=
  appendRequest ops config
    (if cursorModeOf ops batch = .durableEventId then some pass.cursors.latestEventId else none)
    pass.cursors.latestExternalEventSequence (passQueue pass batch)

/-- The top of the loop over the batches. -/
def nextBatch (aborted : List AbortSignalId) (pass : BatchPass ε ω) : FlushPhase ε ω :=
  match pass.batches with
  | [] => .finished pass.queued (.flushed pass.cursors)
  | batch :: _ =>
    if isAborted aborted pass.abortSignal then .threw pass.queued
    else match passRequest config ops pass batch with
      | none => .appending pass (.failed (.other (ops.checkMessage (passQueue pass batch))))
      | some _ => .appending pass .waiting

def flushConversationRunEventBatches (aborted : List AbortSignalId) (locals : FlushLocals ε ω) (input : EventQueue ε ω) :
    FlushPhase ε ω :=
  let maxEventsPerBatch :=
    if input.runtimeObservations.length > 0 then min config.maxEventsPerBatch RUNTIME_OBSERVATION_MAX_EVENTS_PER_APPEND
    else config.maxEventsPerBatch
  match buildConversationRunEventBatches ops maxEventsPerBatch config.maxBatchPayloadBytes input.events with
  | none => .threw locals.queued
  | some batches => nextBatch config ops aborted { locals with input, batches }

/-- The top of the loop over the queue. -/
def flushConversationRunEventQueue (aborted : List AbortSignalId) (locals : FlushLocals ε ω) (pending : EventQueue ε ω) :
    FlushPhase ε ω :=
  if pending.events.length > 0 then flushConversationRunEventBatches config ops aborted locals pending
  else .finished locals.queued (.flushed locals.cursors)

/-- The end of a pass whose append failed, with what is left of it in front of what is pending. -/
def recoverConversationRunAppendExecution (error : AppendFailure) (pass : BatchPass ε ω) (batch : List ε)
    (remaining pending : EventQueue ε ω) : FlushPhase ε ω :=
  match recoverConversationRunAppendFailure error pass.cursors pass.cursorResyncsThisFlush config.maxCursorResyncsPerFlush
    (cursorModeOf ops batch) with
  | .resumed cursors =>
    .resumed { pass.toFlushLocals with
      cursors, consecutiveFailures := 0, cursorResyncsThisFlush := pass.cursorResyncsThisFlush + 1 } (remaining.join pending)
  | .stopped reason => .finished pass.queued (.stopped pass.cursors reason)
  | .retryScheduled errorMessage retryCause =>
    .finished pass.queued
      (.retryScheduled pass.cursors (remaining.join pending) (pass.consecutiveFailures + 1) errorMessage retryCause)

def continueAppend (aborted : List AbortSignalId) (pass : BatchPass ε ω) : AppendAnswer → Option (FlushPhase ε ω)
  | .waiting => none
  | .committed cursors => do
    let batch ← pass.batches.head?
    some (nextBatch config ops aborted
      { pass with cursors, batches := pass.batches.tail, batchStartIndex := pass.batchStartIndex + batch.length })
  | .failed error => do
    let batch ← pass.batches.head?
    if isAborted aborted pass.abortSignal then some (.threw pass.queued)
    else
      let remaining := pass.input.slice pass.batchStartIndex pass.batches.flatten
      some (recoverConversationRunAppendExecution config ops error pass batch remaining {})

end

/-! ## The controller -/

structure QueueController (ε ω : Type) where
  cursors : RunCursors
  pending : EventQueue ε ω := {}
  consecutiveFailures : Nat := 0
  disabled : Bool := false
  disposed : Bool := false
  disableReason : Option DisableReason := none

namespace QueueController

variable {ε ω : Type} (config : QueueConfig) (ops : EventOps ε ω)

def enqueue (controller : QueueController ε ω) (queue : EventQueue ε ω) : QueueController ε ω :=
  if controller.disposed || controller.disabled || queue.events.length = 0 then controller
  else { controller with pending := controller.pending.join queue }

/-- `none` when the flush ends at once: aborted, stopped or with nothing to send. -/
def flushOnce (aborted : List AbortSignalId) (abortSignal : Option AbortSignalId) (controller : QueueController ε ω) :
    Option (QueueController ε ω × FlushPhase ε ω) :=
  if isAborted aborted abortSignal || controller.disabled || controller.pending.events.length = 0 then none
  else
    let locals : FlushLocals ε ω :=
      { abortSignal
        queued := controller.pending
        cursors := controller.cursors
        consecutiveFailures := controller.consecutiveFailures }
    some ({ controller with pending := {} }, flushConversationRunEventQueue config ops aborted locals controller.pending)

/-- A flush that threw puts its whole queue back. -/
def requeue (controller : QueueController ε ω) (queued : EventQueue ε ω) : QueueController ε ω :=
  if controller.disposed then controller else { controller with pending := queued.join controller.pending }

def settleFlush (controller : QueueController ε ω) (result : QueueFlushed ε ω) : QueueController ε ω :=
  if controller.disposed then controller
  else match result with
    | .flushed cursors => { controller with cursors, consecutiveFailures := 0 }
    | .stopped cursors reason => { controller with cursors, pending := {}, disabled := true, disableReason := some reason }
    | .retryScheduled cursors pending consecutiveFailures _ _ =>
      { controller with cursors, pending := pending.join controller.pending, consecutiveFailures }

/-- The observations that are still pending are not dropped. -/
def dispose (controller : QueueController ε ω) : QueueController ε ω :=
  { controller with
    disposed := true, disabled := true, pending := { controller.pending with events := [], toolCallStarts := [] } }

end QueueController

/-! ## The controller and its endpoint -/

/-- An append that the endpoint took: the part of the queue it came from, and the request. -/
structure CommittedAppend (ε ω : Type) where
  queue : EventQueue ε ω
  request : AppendRequest ε ω

/-- `flushTail` says whether a flush would wait for another, `waiting` are the flushes that do. The last field is what was
enqueued so far, with the sidecars at their places in the whole. -/
structure QueueWorld (ε ω : Type) where
  controller : QueueController ε ω
  running : Option (FlushPhase ε ω) := none
  waiting : List (Option AbortSignalId) := []
  flushTail : Bool := false
  aborted : List AbortSignalId := []
  endpoint : RunCursors
  committed : List (CommittedAppend ε ω) := []
  enqueued : EventQueue ε ω := {}

inductive QueueAction (ε ω : Type)
  | enqueue (queue : EventQueue ε ω)
  | flush (abortSignal : Option AbortSignalId)
  | abort (abortSignal : AbortSignalId)
  | dispose
  | commit (cursors : RunCursors)
  | fail (error : AppendFailure)
  | continueAppend
  | continueFlush
  | settle
  | startNext
  | clearTail

section
variable {ε ω : Type} (config : QueueConfig) (ops : EventOps ε ω)

def EventQueue.isMarkedInside (queue : EventQueue ε ω) : Bool :=
  (queue.toolCallStarts.all fun start => start.index < queue.events.length) &&
    queue.runtimeObservations.all fun observation => observation.index < queue.events.length

def expectsCursors (request : AppendRequest ε ω) (cursors : RunCursors) : Bool :=
  (request.expectedPreviousEventId.all fun eventId => eventId = cursors.latestEventId) &&
    request.expectedPreviousExternalEventSequence.all fun sequence => sequence = cursors.latestExternalEventSequence

def isHonestFailure (cursors : RunCursors) : AppendFailure → Bool
  | .rejected status detail slug cursor message =>
    !(AppendFailure.rejected status detail slug cursor message).isCursorMismatch || cursor = some cursors
  | _ => true

namespace QueueWorld

def startFlush (w : QueueWorld ε ω) (abortSignal : Option AbortSignalId) : QueueWorld ε ω :=
  match w.controller.flushOnce config ops w.aborted abortSignal with
  | none => w
  | some (controller, phase) => { w with controller, running := some phase }

def inFlight (w : QueueWorld ε ω) : Option (BatchPass ε ω × List ε × AppendRequest ε ω) :=
  match w.running with
  | some (.appending pass .waiting) => do
    let batch ← pass.batches.head?
    let request ← passRequest config ops pass batch
    some (pass, batch, request)
  | _ => none

/-- One step; `none` when it cannot be taken. -/
def step (w : QueueWorld ε ω) : QueueAction ε ω → Option (QueueWorld ε ω)
  | .enqueue queue =>
    if queue.isMarkedInside then some { w with controller := w.controller.enqueue queue, enqueued := w.enqueued.join queue }
    else none
  | .flush abortSignal =>
    some (if w.flushTail then { w with waiting := w.waiting ++ [abortSignal] }
      else { w.startFlush config ops abortSignal with flushTail := true })
  | .abort abortSignal => some { w with aborted := abortSignal :: w.aborted }
  | .dispose => some { w with controller := w.controller.dispose }
  | .commit cursors => do
    let (pass, batch, request) ← w.inFlight config ops
    if expectsCursors request w.endpoint then
      some { w with
        running := some (.appending pass (.committed cursors))
        endpoint := cursors
        committed := w.committed ++ [⟨passQueue pass batch, request⟩] }
    else none
  | .fail error => do
    let (pass, _, _) ← w.inFlight config ops
    if isHonestFailure w.endpoint error then some { w with running := some (.appending pass (.failed error)) } else none
  | .continueAppend =>
    match w.running with
    | some (.appending pass answer) =>
      (Conversation.continueAppend config ops w.aborted pass answer).map fun phase => { w with running := some phase }
    | _ => none
  | .continueFlush =>
    match w.running with
    | some (.resumed locals pending) =>
      some { w with running := some (flushConversationRunEventQueue config ops w.aborted locals pending) }
    | _ => none
  | .settle =>
    match w.running with
    | some (.finished _ result) => some { w with controller := w.controller.settleFlush result, running := none }
    | some (.threw queued) => some { w with controller := w.controller.requeue queued, running := none }
    | _ => none
  | .startNext =>
    match w.running, w.waiting with
    | none, abortSignal :: waiting => some ({ w with waiting }.startFlush config ops abortSignal)
    | _, _ => none
  | .clearTail => if w.running.isNone && w.waiting.isEmpty then some { w with flushTail := false } else none

end QueueWorld

end

end Veryfront.Agent.Conversation
