import Veryfront.Lib.Marks

/-!
# The durable append queue

Events of a run are queued and appended to the stored run in batches, each against the cursor that
the last append returned. Next to the events travel marks on some of them: which event starts a tool
call, and what the runtime observed at one.
-/

namespace Veryfront.Agent.Conversation

open Veryfront.Lib

/-! ## The queue and its sidecars -/

abbrev ConversationRunToolCallAdmissionStart := Mark String

abbrev ConversationRunRuntimeObservation (ω : Type) := Mark ω

section
variable {ω : Type}

def shiftToolCallAdmissionStarts (starts : List ConversationRunToolCallAdmissionStart) (offset : Nat) :
    List ConversationRunToolCallAdmissionStart := shiftMarks starts offset

def shiftRuntimeObservations (observations : List (ConversationRunRuntimeObservation ω)) (offset : Nat) :
    List (ConversationRunRuntimeObservation ω) := shiftMarks observations offset

def selectToolCallAdmissionStartsForRange (starts : List ConversationRunToolCallAdmissionStart) (startIndex eventCount : Nat) :
    List ConversationRunToolCallAdmissionStart := selectMarks starts startIndex eventCount

def selectRuntimeObservationsForRange (observations : List (ConversationRunRuntimeObservation ω)) (startIndex eventCount : Nat) :
    List (ConversationRunRuntimeObservation ω) := selectMarks observations startIndex eventCount

end

/-- The three lists that always move together. -/
structure EventQueue (ε ω : Type) where
  events : List ε := []
  toolCallStarts : List ConversationRunToolCallAdmissionStart := []
  runtimeObservations : List (ConversationRunRuntimeObservation ω) := []

namespace EventQueue

variable {ε ω : Type}

/-- One queue behind another. -/
def join (first second : EventQueue ε ω) : EventQueue ε ω where
  events := first.events ++ second.events
  toolCallStarts := first.toolCallStarts ++ shiftToolCallAdmissionStarts second.toolCallStarts first.events.length
  runtimeObservations := first.runtimeObservations ++ shiftRuntimeObservations second.runtimeObservations first.events.length

/-- Events from `startIndex` on, with the sidecars that belong to them. -/
def slice (queue : EventQueue ε ω) (startIndex : Nat) (events : List ε) : EventQueue ε ω where
  events
  toolCallStarts := selectToolCallAdmissionStartsForRange queue.toolCallStarts startIndex events.length
  runtimeObservations := selectRuntimeObservationsForRange queue.runtimeObservations startIndex events.length

end EventQueue

/-! ## What the queue asks of an event -/

/-- A size or a normal form is `none` where the code throws. -/
structure EventOps (ε ω : Type) where
  isPrivate : ε → Bool
  jsonByteLength : ε → Option Nat
  toolCallStartId : ε → Option String
  normalize : ε → Option (List ε)
  modelCallCaptureIds : List ε → List String
  isUuid : String → Bool
  normalizeReceiptId : String → String
  requestFits : List ε → List ConversationRunToolCallAdmissionStart → List (ConversationRunRuntimeObservation ω) → Bool
  /-- What the check says that throws before an append is sent. -/
  checkMessage : EventQueue ε ω → String

structure QueueConfig where
  maxEventsPerBatch : Nat
  maxBatchPayloadBytes : Nat := 512 * 1024
  maxCursorResyncsPerFlush : Nat := 3
  canonicalRunIdIsUuid : Bool := true

def MAX_CONVERSATION_RUN_EVENTS_PER_APPEND : Nat := 100

def RUNTIME_OBSERVATION_MAX_EVENTS_PER_APPEND : Nat := 100

structure RunCursors where
  latestEventId : Nat
  latestExternalEventSequence : Nat
deriving DecidableEq

/-! ## Batches -/

section
variable {ε ω : Type} (ops : EventOps ε ω)

def batchesFrom (maxEventsPerBatch maxBatchPayloadBytes : Nat) : List ε → List ε → Nat → Option (List (List ε))
  | [], currentBatch, _ => some (if currentBatch.length > 0 then [currentBatch] else [])
  | event :: events, currentBatch, currentBatchBytes => do
    let eventBytes ← ops.jsonByteLength event
    if currentBatch.length > 0 ∧
        (currentBatch.length ≥ maxEventsPerBatch ∨ currentBatchBytes + eventBytes > maxBatchPayloadBytes) then
      let batches ← batchesFrom maxEventsPerBatch maxBatchPayloadBytes events [event] eventBytes
      some (currentBatch :: batches)
    else batchesFrom maxEventsPerBatch maxBatchPayloadBytes events (currentBatch ++ [event]) (currentBatchBytes + eventBytes)

def buildConversationRunEventBatches (maxEventsPerBatch maxBatchPayloadBytes : Nat) (events : List ε) : Option (List (List ε)) :=
  batchesFrom ops (min maxEventsPerBatch MAX_CONVERSATION_RUN_EVENTS_PER_APPEND) maxBatchPayloadBytes events [] 0

/-! ## One append -/

inductive CursorMode
  | externalSequence | durableEventId
deriving DecidableEq

structure AppendRequest (ε ω : Type) where
  expectedPreviousEventId : Option Nat
  expectedPreviousExternalEventSequence : Option Nat
  toolCallStarts : List ConversationRunToolCallAdmissionStart
  runtimeObservations : List (ConversationRunRuntimeObservation ω)
  events : List ε

/-- Each start names a start event of the append, by its occurrence. -/
def readSubmittedToolCallAdmissionStarts (events : List ε) :
    List ConversationRunToolCallAdmissionStart → List String → List Nat → Option (List (ConversationRunToolCallAdmissionStart × String))
  | [], _, _ => some []
  | start :: starts, seenOccurrences, seenEventIndexes =>
    if !ops.isUuid start.item || seenEventIndexes.contains start.index then none
    else match events[start.index]?.bind ops.toolCallStartId with
      | none => none
      | some toolCallId =>
        let occurrenceId := ops.normalizeReceiptId start.item
        if seenOccurrences.contains occurrenceId then none
        else (readSubmittedToolCallAdmissionStarts events starts (occurrenceId :: seenOccurrences) (start.index :: seenEventIndexes)).map
          fun submitted => (⟨occurrenceId, start.index⟩, toolCallId) :: submitted

def readSubmittedRuntimeObservations (events : List ε) (observations : List (ConversationRunRuntimeObservation ω)) :
    Option (List (ConversationRunRuntimeObservation ω)) :=
  if (observations.all fun observation => observation.index < events.length) ∧ (observations.map Mark.index).Nodup then
    some observations
  else none

/-- With sidecars, an event that is split would move the indexes. -/
def normalizeAppendEvents (events : List ε) (hasPrivateSidecars : Bool) : Option (List ε) := do
  let normalized ← events.mapM ops.normalize
  if hasPrivateSidecars && !normalized.all (fun event => event.length = 1) then none else some normalized.flatten

def validateNormalizedAppendSidecars (normalizedEvents : List ε) (starts : List (ConversationRunToolCallAdmissionStart × String))
    (observations : List (ConversationRunRuntimeObservation ω)) : Bool :=
  (starts.all fun start => normalizedEvents[start.1.index]?.bind ops.toolCallStartId = some start.2) &&
    observations.all fun observation => normalizedEvents[observation.index]?.isSome

def checkAppend (expectedPreviousEventId : Option Nat) (events : List ε)
    (starts : List (ConversationRunToolCallAdmissionStart × String)) (observations : List (ConversationRunRuntimeObservation ω)) : Bool :=
  validateNormalizedAppendSidecars ops events starts observations &&
    (ops.modelCallCaptureIds events).Nodup &&
    !(events.any ops.isPrivate && expectedPreviousEventId.isNone) &&
    observations.length ≤ RUNTIME_OBSERVATION_MAX_EVENTS_PER_APPEND &&
    ops.requestFits events (starts.map Prod.fst) observations

/-- The request of an append; `none` when a check throws before it is sent. -/
def appendRequest (config : QueueConfig) (expectedPreviousEventId : Option Nat) (expectedPreviousExternalEventSequence : Nat)
    (queue : EventQueue ε ω) : Option (AppendRequest ε ω) :=
  if !config.canonicalRunIdIsUuid then none
  else do
    let starts ← readSubmittedToolCallAdmissionStarts ops queue.events queue.toolCallStarts [] []
    let observations ← readSubmittedRuntimeObservations queue.events queue.runtimeObservations
    let events ← normalizeAppendEvents ops queue.events (starts.length > 0 || observations.length > 0)
    if checkAppend ops expectedPreviousEventId events starts observations then
      some
        { expectedPreviousEventId
          expectedPreviousExternalEventSequence :=
            if events.any ops.isPrivate then none else some expectedPreviousExternalEventSequence
          toolCallStarts := starts.map Prod.fst
          runtimeObservations := observations
          events }
    else none

end

/-! ## Failed appends -/

/-- An answer that is not ok, a timeout of the request, or anything else that was thrown. -/
inductive AppendFailure
  | rejected (status : Nat) (detail slug : Option String) (cursor : Option RunCursors) (message : String)
  | timeout (message : String)
  | other (message : String)

namespace AppendFailure

def message : AppendFailure → String
  | .rejected _ _ _ _ message | .timeout message | .other message => message

def isCursorMismatch : AppendFailure → Bool
  | .rejected status detail .. => status = 400 && detail = some "External run event cursor mismatch"
  | _ => false

def isTerminalRunAppendRejection : AppendFailure → Bool
  | .rejected status detail slug .. =>
    status = 400 && (slug = some "terminal-run-append-rejected" || detail = some "Cannot append external events to a terminal run")
  | _ => false

def isTerminalRun (failure : AppendFailure) : Bool :=
  failure.isTerminalRunAppendRejection || match failure with
    | .rejected status _ slug .. => status = 404 && slug = some "resource-not-found"
    | _ => false

def isIgnorable (failure : AppendFailure) : Bool :=
  match failure with
  | .rejected status detail .. =>
    status = 404 || (status = 400 && (failure.isTerminalRunAppendRejection ||
      detail = some "Cannot append external events while the run is waiting for a tool result"))
  | _ => false

def isPermanentAuth : AppendFailure → Bool
  | .rejected status .. => status = 401 || status = 403
  | _ => false

def isPayloadTooLarge : AppendFailure → Bool
  | .rejected status detail .. =>
    status = 400 && detail.any fun detail => (detail.splitOn "payload must be less than").length > 1
  | _ => false

end AppendFailure

inductive DisableReason
  | cursorResyncsExhausted | cursorMismatchAmbiguous | nonAppendable | ignorableAppendRejection | runTerminal
  | payloadTooLarge | authRejected
deriving DecidableEq, Repr

inductive CursorRecovery
  | bubbled
  | stopped (reason : DisableReason)
  | resumed (cursors : RunCursors)

/-- A mismatch of a public batch resumes at the cursor of the answer, if that is ahead. -/
def recoverConversationRunCursorMismatch (error : AppendFailure) (cursors : RunCursors)
    (cursorResyncsThisFlush maxCursorResyncsPerFlush : Nat) (cursorMode : CursorMode) : CursorRecovery :=
  if !error.isCursorMismatch then .bubbled
  else if cursorMode = .durableEventId then .stopped .cursorMismatchAmbiguous
  else if cursorResyncsThisFlush ≥ maxCursorResyncsPerFlush then .stopped .cursorResyncsExhausted
  else match error with
    | .rejected _ _ _ (some cursor) _ =>
      if cursor.latestEventId ≥ cursors.latestEventId ∧
          cursor.latestExternalEventSequence > cursors.latestExternalEventSequence then .resumed cursor
      else .stopped .cursorMismatchAmbiguous
    | _ => .stopped .cursorMismatchAmbiguous

def stoppedAppendFailureReason (error : AppendFailure) : Option DisableReason :=
  if error.isTerminalRun then some .runTerminal
  else if error.isIgnorable then some .ignorableAppendRejection
  else if error.isPermanentAuth then some .authRejected
  else if error.isPayloadTooLarge then some .payloadTooLarge
  else none

inductive RetryCause
  | timeout
deriving DecidableEq, Repr

inductive AppendRecovery
  | resumed (cursors : RunCursors)
  | stopped (reason : DisableReason)
  | retryScheduled (errorMessage : String) (retryCause : Option RetryCause)

def recoverConversationRunAppendFailure (error : AppendFailure) (cursors : RunCursors)
    (cursorResyncsThisFlush maxCursorResyncsPerFlush : Nat) (cursorMode : CursorMode) : AppendRecovery :=
  match recoverConversationRunCursorMismatch error cursors cursorResyncsThisFlush maxCursorResyncsPerFlush cursorMode with
  | .resumed cursors => .resumed cursors
  | .stopped reason => .stopped reason
  | .bubbled =>
    match stoppedAppendFailureReason error with
    | some reason => .stopped reason
    | none => .retryScheduled error.message (match error with
      | .timeout _ => some .timeout
      | _ => none)

end Veryfront.Agent.Conversation
