import Mathlib.Data.Finset.Basic
import Veryfront.Agent.Streaming.Types
import Veryfront.Lib.Monitor

/-!
# The AG-UI encoder

Runtime stream events are mapped one after the other to AG-UI events, over a state that knows the message, the
open text or reasoning and the open tool calls. Metadata of the run, structured output and the frames of native
run events are the host's. The timing stamps that follow add two fields to each payload and are left out.
-/

namespace Veryfront.Agent.AgUi

open Lib Lib.Emitter
open Streaming (textId)

/-! ## Events -/

structure RuntimeStreamEvent where
  type : JsText
  fields : List (JsText × JsValue)

namespace RuntimeStreamEvent

def field (event : RuntimeStreamEvent) (name : String) : JsValue := (JsValue.object event.fields).field (js name)

def has (event : RuntimeStreamEvent) (name : String) : Bool := event.fields.any fun f => f.1 = js name

end RuntimeStreamEvent

def asString : JsValue → Option JsText
  | .string text => some text
  | _ => none

def truthy (text : Option JsText) : Option JsText := text.filter (· ≠ [])

def nonemptyString (value : JsValue) : Option JsText := truthy (asString value)

inductive EventKind
  | manualPause
  | dataPart (name : JsText)
  | file
  | messageStart
  | messageFinish
  | textStart
  | textDelta
  | textEnd
  | reasoningStart
  | reasoningDelta
  | reasoningEnd
  | toolInputStart
  | toolInputDelta
  | toolInputAvailable
  | toolInputError
  | toolOutputAvailable
  | toolOutputError
  | toolOutputDenied
  | stepStart
  | stepEnd
  | data
  | error
  | unknown
deriving DecidableEq

def eventKinds : List (String × EventKind) :=
  [("source-document", .file), ("source-url", .file), ("file", .file), ("message-start", .messageStart),
    ("message-finish", .messageFinish), ("finish", .messageFinish), ("text-start", .textStart),
    ("text-delta", .textDelta), ("text-end", .textEnd), ("reasoning-start", .reasoningStart),
    ("reasoning-delta", .reasoningDelta), ("reasoning-end", .reasoningEnd), ("tool-input-start", .toolInputStart),
    ("tool-input-delta", .toolInputDelta), ("tool-input-available", .toolInputAvailable),
    ("tool-input-error", .toolInputError), ("tool-output-available", .toolOutputAvailable),
    ("tool-output-error", .toolOutputError), ("tool-output-denied", .toolOutputDenied), ("step-start", .stepStart),
    ("start-step", .stepStart), ("step-end", .stepEnd), ("finish-step", .stepEnd), ("data", .data), ("error", .error)]

def RuntimeStreamEvent.kind (event : RuntimeStreamEvent) : EventKind :=
  if event.type = js "data-veryfront.manual_pause" then .manualPause
  else if (js "data-").isPrefixOf event.type then .dataPart (event.type.drop 5)
  else ((eventKinds.find? fun e => js e.1 = event.type).map Prod.snd).getD .unknown

inductive ToolResultContent
  | output (output : JsValue)
  | error (error : JsValue)

/-- The roles of the two message starts are constant: "assistant" and "reasoning". -/
inductive AgUiEncodedEvent (M : Type)
  | textMessageStart (messageId contentId : JsText)
  | textMessageContent (messageId contentId delta : JsText)
  | textMessageEnd (messageId contentId : JsText)
  | reasoningMessageStart (messageId : JsText) (contentId : Option JsText)
  | reasoningMessageContent (messageId : JsText) (contentId : Option JsText) (delta : JsText)
  | reasoningMessageEnd (messageId : JsText) (contentId : Option JsText)
  | toolCallStart (toolCallId toolCallName : JsValue) (parentMessageId : Option JsText)
  | toolCallArgs (toolCallId : JsValue) (delta : JsText)
  | toolCallEnd (toolCallId : JsValue)
  | toolCallResult (toolCallId : JsValue) (content : ToolResultContent) (isError : Bool)
  | stepStarted (stepName stepId : JsText)
  | stepFinished (stepName : JsText) (stepId : Option JsText)
  | custom (name : JsText) (value : JsValue)
  | native (live : JsValue)
  | runError (code : Option JsText) (message : JsText)
  | runFinished (metadata : M) (result : Option JsValue)

/-! ## The state -/

structure AgUiEncoderState (M : Type) where
  messageId : Option JsText
  textOpen : Bool
  activeTextContentId : Option JsText
  textContentIndex : Nat
  reasoningMessageId : Option JsText
  activeReasoningContentId : Option JsText
  reasoningSpanIndex : Nat
  activeStepName : Option JsText
  activeStepId : Option JsText
  stepCount : Nat
  streamedToolInputIds : Finset JsText
  openToolCallIds : Finset JsText
  sawVisibleOutput : Bool
  sawTerminalError : Bool
  manuallyPaused : Bool
  finishObject : Option JsValue
  metadata : M
  /-- How many random ids have been drawn. -/
  uuidCount : Nat

def createAgUiEncoderState {M : Type} (metadata : M) : AgUiEncoderState M where
  messageId := none
  textOpen := false
  activeTextContentId := none
  textContentIndex := 0
  reasoningMessageId := none
  activeReasoningContentId := none
  reasoningSpanIndex := 0
  activeStepName := none
  activeStepId := none
  stepCount := 0
  streamedToolInputIds := ∅
  openToolCallIds := ∅
  sawVisibleOutput := false
  sawTerminalError := false
  manuallyPaused := false
  finishObject := none
  metadata
  uuidCount := 0

/-- What the encoder calls. `R` is a final response. -/
structure AgUiHost (M R : Type) where
  randomUUID : Nat → JsText
  randomUUID_ne_nil : ∀ n, randomUUID n ≠ []
  stepIdentity : RuntimeStreamEvent → Option JsText
  /-- `none` where the input is not JSON data or exceeds the limit, and the call throws. -/
  serializeToolInput : JsValue → Option JsText
  isToolResultErrorOutput : JsValue → Bool
  nativeFrame : (name : JsText) → (value : JsValue) → (parentMessageId : Option JsText) → Option JsValue
  /-- The metadata after a message finish, the object it reports, and what it records. -/
  messageFinish : M → RuntimeStreamEvent → M × Option JsValue × Option JsValue
  dataMetadata : M → RuntimeStreamEvent → M
  responseMetadata : M → Option R → M
  structuredOutput : R → Option JsValue

section Encoder

variable {M R : Type}

/-- What a helper does to the state, and the events it returns. -/
abbrev Emit (M : Type) := Emitter (AgUiEncoderState M) (AgUiEncodedEvent M)

def sawOutput : Emit M := update fun state => { state with sawVisibleOutput := true }

variable (host : AgUiHost M R)

/-! ## Identities -/

def getMessageId (state : AgUiEncoderState M) (event : RuntimeStreamEvent) : AgUiEncoderState M × JsText :=
  match asString (event.field "messageId") with
  | some messageId => ({ state with messageId := some messageId }, messageId)
  | none =>
    let candidate :=
      if truthy state.messageId = none then (asString (event.field "id")).or state.messageId else state.messageId
    match truthy candidate with
    | some messageId => ({ state with messageId := candidate }, messageId)
    | none =>
      let uuid := host.randomUUID state.uuidCount
      ({ state with messageId := some uuid, uuidCount := state.uuidCount + 1 }, uuid)

/-- The message id, if there is one, and the ordinal of the span in the run. -/
def reasoningSpanId (messageId : Option JsText) (index : Nat) : JsText :=
  match truthy messageId with
  | some messageId => messageId ++ js ":reasoning:" ++ js (toString index)
  | none => js "reasoning:" ++ js (toString index)

def openReasoningMessageId (state : AgUiEncoderState M) : AgUiEncoderState M × JsText :=
  let messageId := reasoningSpanId state.messageId state.reasoningSpanIndex
  ({ state with reasoningSpanIndex := state.reasoningSpanIndex + 1, reasoningMessageId := some messageId }, messageId)

def getReasoningContentId (event : RuntimeStreamEvent) : Option JsText :=
  (nonemptyString (event.field "contentId")).or (nonemptyString (event.field "id"))

def textContentIndexed (state : AgUiEncoderState M) (contentId : Option JsText) : AgUiEncoderState M × JsText :=
  match contentId with
  | some contentId => (state, contentId)
  | none => ({ state with textContentIndex := state.textContentIndex + 1 }, textId state.textContentIndex)

def getTextMessageIdentity (state : AgUiEncoderState M) (event : RuntimeStreamEvent) :
    AgUiEncoderState M × JsText × JsText :=
  let explicitMessageId := nonemptyString (event.field "messageId")
  let (after, messageId) := getMessageId host state event
  let eventId := (nonemptyString (event.field "id")).filter fun id =>
    id ≠ messageId ∧ (explicitMessageId.or (truthy state.messageId)).isSome
  let open? := if state.textOpen then truthy state.activeTextContentId else none
  let (after, contentId) :=
    textContentIndexed after (((nonemptyString (event.field "contentId")).or eventId).or open?)
  (after, messageId, contentId)

def getCandidateTextMessageIdentity (state : AgUiEncoderState M) (event : RuntimeStreamEvent) :
    Option JsText × Option JsText :=
  let explicitMessageId := nonemptyString (event.field "messageId")
  let id := nonemptyString (event.field "id")
  let messageId := (explicitMessageId.or state.messageId).or id
  let eventId := id.filter fun id =>
    (truthy messageId).isSome ∧ some id ≠ messageId ∧ (explicitMessageId.or (truthy state.messageId)).isSome
  (messageId, ((nonemptyString (event.field "contentId")).or eventId).or state.activeTextContentId)

def isActiveTextIdentity (state : AgUiEncoderState M) (event : RuntimeStreamEvent) : Bool :=
  getCandidateTextMessageIdentity state event = (state.messageId, state.activeTextContentId)

/-! ## Closing -/

def bareTextEnd : RuntimeStreamEvent := ⟨js "text-end", []⟩

def closeOpenTextEvent : Emit M := fun state =>
  if state.textOpen then
    let (after, messageId) := getMessageId host { state with textOpen := false } bareTextEnd
    let (after, contentId) := textContentIndexed after state.activeTextContentId
    ({ after with activeTextContentId := none }, [.textMessageEnd messageId contentId])
  else (state, [])

def closeOpenReasoningEvent : Emit M := fun state =>
  match state.reasoningMessageId with
  | none => (state, [])
  | some messageId =>
    ({ state with reasoningMessageId := none, activeReasoningContentId := none },
      [.reasoningMessageEnd messageId (truthy state.activeReasoningContentId)])

def closeOpen : Emit M := (closeOpenTextEvent host).andThen closeOpenReasoningEvent

/-! ## Text and reasoning -/

def deltaOf (event : RuntimeStreamEvent) : JsText := (asString (event.field "delta")).getD []

def openText (event : RuntimeStreamEvent) : Emit M := fun state =>
  let (after, messageId, contentId) := getTextMessageIdentity host state event
  ({ after with textOpen := true, activeTextContentId := some contentId, sawVisibleOutput := true },
    [.textMessageStart messageId contentId])

def mapTextStartEvent (event : RuntimeStreamEvent) : Emit M :=
  closeOpenReasoningEvent.andThen fun state =>
    if state.textOpen then
      if isActiveTextIdentity state event then (state, [])
      else ((closeOpenTextEvent host).andThen (openText host event)) state
    else openText host event state

def appendText (event : RuntimeStreamEvent) : Emit M := fun state =>
  let (after, messageId, contentId) := getTextMessageIdentity host state event
  if after.textOpen then
    ({ after with sawVisibleOutput := true },
      [.textMessageContent messageId (after.activeTextContentId.getD contentId) (deltaOf event)])
  else
    ({ after with textOpen := true, activeTextContentId := some contentId, sawVisibleOutput := true },
      [.textMessageStart messageId contentId, .textMessageContent messageId contentId (deltaOf event)])

def mapTextDeltaEvent (event : RuntimeStreamEvent) : Emit M :=
  closeOpenReasoningEvent.andThen fun state =>
    if state.textOpen && !isActiveTextIdentity state event then
      ((closeOpenTextEvent host).andThen (appendText host event)) state
    else appendText host event state

def mapTextEndEvent (event : RuntimeStreamEvent) : Emit M := fun state =>
  if state.textOpen then
    let (after, messageId, contentId) := getTextMessageIdentity host state event
    ({ after with textOpen := false, activeTextContentId := none },
      [.textMessageEnd messageId (after.activeTextContentId.getD contentId)])
  else (state, [])

def startReasoning (event : RuntimeStreamEvent) : Emit M := fun state =>
  let (state, messageId) := openReasoningMessageId state
  let contentId := getReasoningContentId event
  ({ state with activeReasoningContentId := contentId }, [.reasoningMessageStart messageId contentId])

/-- Belongs to the span that is open. -/
def appendReasoning (event : RuntimeStreamEvent) : Emit M := fun state =>
  let (state, messageId) :=
    match state.reasoningMessageId with
    | some messageId => (state, messageId)
    | none => openReasoningMessageId state
  (state, [.reasoningMessageContent messageId (truthy state.activeReasoningContentId) (deltaOf event)])

def mapReasoningStartEvent (event : RuntimeStreamEvent) : Emit M :=
  (closeOpen host).andThen (sawOutput.andThen (startReasoning event))

/-- With nothing open a span begins. -/
def ensureReasoning (event : RuntimeStreamEvent) : Emit M := fun state =>
  if state.reasoningMessageId = none then startReasoning event state else (state, [])

def mapReasoningDeltaEvent (event : RuntimeStreamEvent) : Emit M :=
  (closeOpenTextEvent host).andThen <| sawOutput.andThen <| (ensureReasoning event).andThen (appendReasoning event)

/-! ## Tool calls -/

def toolCallIdOf (event : RuntimeStreamEvent) : JsValue := event.field "toolCallId"

def closeOpenToolInput (event : RuntimeStreamEvent) : Emit M := fun state =>
  match nonemptyString (toolCallIdOf event) with
  | none => (state, [])
  | some toolCallId =>
    if toolCallId ∈ state.openToolCallIds then
      ({ state with
          openToolCallIds := state.openToolCallIds.erase toolCallId
          streamedToolInputIds := state.streamedToolInputIds.erase toolCallId },
        [.toolCallEnd (.string toolCallId)])
    else (state, [])

/-- A missing or null input is serialised as an empty object. -/
def serializedInput (event : RuntimeStreamEvent) : Option JsText :=
  host.serializeToolInput
    (match if event.has "input" then event.field "input" else .object [] with
      | .undefined | .null => .object []
      | input => input)

/-- `none` where the serialisation throws. -/
def completeToolInput (event : RuntimeStreamEvent) (state : AgUiEncoderState M) :
    Option (AgUiEncoderState M × List (AgUiEncodedEvent M)) :=
  match nonemptyString (toolCallIdOf event) with
  | none => some (state, [.toolCallEnd (toolCallIdOf event)])
  | some toolCallId =>
    let after :=
      { state with
        streamedToolInputIds := state.streamedToolInputIds.erase toolCallId
        openToolCallIds := state.openToolCallIds.erase toolCallId }
    if toolCallId ∈ state.streamedToolInputIds then some (after, [.toolCallEnd (toolCallIdOf event)])
    else
      (serializedInput host event).map fun delta =>
        (after, [.toolCallArgs (.string toolCallId) delta, .toolCallEnd (toolCallIdOf event)])

def mapToolInputStartEvent (event : RuntimeStreamEvent) : Emit M :=
  (closeOpen host).andThen <| sawOutput.andThen <| fun state =>
    ({ state with
        openToolCallIds :=
          match nonemptyString (toolCallIdOf event) with
          | some toolCallId => insert toolCallId state.openToolCallIds
          | none => state.openToolCallIds },
      [.toolCallStart (toolCallIdOf event) (event.field "toolName") (truthy state.messageId)])

def mapToolInputDeltaEvent (event : RuntimeStreamEvent) : Emit M :=
  (update fun state =>
    { state with
      sawVisibleOutput := true
      streamedToolInputIds :=
        match asString (toolCallIdOf event) with
        | some toolCallId => insert toolCallId state.streamedToolInputIds
        | none => state.streamedToolInputIds }).andThen <|
  (closeOpen host).andThen <|
  emit (.toolCallArgs (toolCallIdOf event) ((asString (event.field "inputTextDelta")).getD []))

def mapToolInputAvailableEvent (event : RuntimeStreamEvent) (state : AgUiEncoderState M) :
    Option (AgUiEncoderState M × List (AgUiEncodedEvent M)) :=
  let (state, closed) := (sawOutput.andThen (closeOpen host)) state
  (completeToolInput host event state).map fun (state, completed) => (state, closed ++ completed)

def mapToolInputErrorEvent (event : RuntimeStreamEvent) (state : AgUiEncoderState M) :
    Option (AgUiEncoderState M × List (AgUiEncodedEvent M)) :=
  (mapToolInputAvailableEvent host event state).map fun (state, events) =>
    (state, events ++
      [.toolCallResult (toolCallIdOf event)
        (.error (.string ((asString (event.field "errorText")).getD (js "Tool input failed")))) true])

/-- An output that is preliminary is not reported. -/
def mapToolOutputAvailableEvent (event : RuntimeStreamEvent) : Emit M := fun state =>
  match event.field "preliminary" with
  | .bool true => (state, [])
  | _ =>
    let providerExecuted := match event.field "providerExecuted" with | .bool true => true | _ => false
    (sawOutput.andThen <| (closeOpen host).andThen <| emit <|
      .toolCallResult (toolCallIdOf event) (.output (event.field "output"))
        (!providerExecuted && host.isToolResultErrorOutput (event.field "output"))) state

def mapToolOutputErrorEvent (event : RuntimeStreamEvent) : Emit M :=
  sawOutput.andThen <| (closeOpen host).andThen <| (closeOpenToolInput event).andThen <|
    emit (.toolCallResult (toolCallIdOf event) (.error (event.field "errorText")) true)

def mapToolOutputDeniedEvent (event : RuntimeStreamEvent) : Emit M :=
  sawOutput.andThen <| (closeOpen host).andThen <|
    emit (.toolCallResult (toolCallIdOf event) (.error (.string (js "Tool output denied"))) true)

/-! ## Steps, data and errors -/

def stepNameOf (count : Nat) : JsText := js "step-" ++ js (toString count)

def nextStep (event : RuntimeStreamEvent) : Emit M := fun state =>
  let stepName := stepNameOf (state.stepCount + 1)
  let state := { state with stepCount := state.stepCount + 1, activeStepName := some stepName }
  match host.stepIdentity event with
  | some stepId => ({ state with activeStepId := some stepId }, [.stepStarted stepName stepId])
  | none =>
    let stepId := host.randomUUID state.uuidCount
    ({ state with activeStepId := some stepId, uuidCount := state.uuidCount + 1 }, [.stepStarted stepName stepId])

def finishStep : Emit M := fun state =>
  ({ state with activeStepName := none, activeStepId := none },
    [.stepFinished (state.activeStepName.getD (stepNameOf (max state.stepCount 1))) state.activeStepId])

def nativeOrCustom (name : JsText) (value : JsValue) : Emit M := fun state =>
  match host.nativeFrame name value state.messageId with
  | some live => (state, [.native live])
  | none => (state, [.custom name value])

def mapFileEvent (event : RuntimeStreamEvent) : Emit M :=
  sawOutput.andThen (nativeOrCustom host event.type (.object ((js "type", .string event.type) :: event.fields)))

def mapDataPart (name : JsText) (event : RuntimeStreamEvent) : Emit M := fun state =>
  if name = [] then (state, [])
  else
    let state := if name ≠ js "veryfront.runtime_context" then { state with sawVisibleOutput := true } else state
    nativeOrCustom host name (if event.has "data" then event.field "data" else .null) state

def createMessageFinishMetadataEvent (event : RuntimeStreamEvent) : Emit M := fun state =>
  let (metadata, object, recorded) := host.messageFinish state.metadata event
  ({ state with metadata, finishObject := object.or state.finishObject }, (recorded.map AgUiEncodedEvent.native).toList)

def mapErrorEvent (event : RuntimeStreamEvent) : Emit M :=
  (update fun state => { state with sawTerminalError := true }).andThen <| (closeOpen host).andThen <|
    emit (.runError (nonemptyString (event.field "code")) ((asString (event.field "error")).getD (js "Agent run failed")))

/-! ## The mapping -/

/-- `none` where the mapping throws. -/
def mapRuntimeStreamEventToAgUiEvents (state : AgUiEncoderState M) (event : RuntimeStreamEvent) :
    Option (AgUiEncoderState M × List (AgUiEncodedEvent M)) :=
  match event.kind with
  | .manualPause => some ({ state with manuallyPaused := true }, [])
  | .dataPart name => some (mapDataPart host name event state)
  | .file => some (mapFileEvent host event state)
  | .messageStart => some ((getMessageId host state event).1, [])
  | .messageFinish => some (createMessageFinishMetadataEvent host event state)
  | .textStart => some (mapTextStartEvent host event state)
  | .textDelta => some (mapTextDeltaEvent host event state)
  | .textEnd => some (mapTextEndEvent host event state)
  | .reasoningStart => some (mapReasoningStartEvent host event state)
  | .reasoningDelta => some (mapReasoningDeltaEvent host event state)
  | .reasoningEnd => some (closeOpenReasoningEvent state)
  | .toolInputStart => some (mapToolInputStartEvent host event state)
  | .toolInputDelta => some (mapToolInputDeltaEvent host event state)
  | .toolInputAvailable => mapToolInputAvailableEvent host event state
  | .toolInputError => mapToolInputErrorEvent host event state
  | .toolOutputAvailable => some (mapToolOutputAvailableEvent host event state)
  | .toolOutputError => some (mapToolOutputErrorEvent host event state)
  | .toolOutputDenied => some (mapToolOutputDeniedEvent host event state)
  | .stepStart => some (((closeOpen host).andThen (nextStep host event)) state)
  | .stepEnd => some (((closeOpen host).andThen finishStep) state)
  | .data => some ({ state with metadata := host.dataMetadata state.metadata event }, [])
  | .error => some (mapErrorEvent host event state)
  | .unknown => some (state, [])

def finalizeAgUiEvents (state : AgUiEncoderState M) (response : Option R) :
    AgUiEncoderState M × List (AgUiEncodedEvent M) :=
  let state := { state with metadata := host.responseMetadata state.metadata response }
  if state.sawTerminalError || state.manuallyPaused then (state, [])
  else if !state.sawVisibleOutput then
    ({ state with sawTerminalError := true },
      [.runError (some (js "EMPTY_ASSISTANT_OUTPUT")) (js "Agent run produced no assistant-visible output")])
  else
    let finishObject := state.finishObject.or (response.bind host.structuredOutput)
    ((closeOpen host).andThen (emit (.runFinished state.metadata finishObject))) state

def mapEvents (state : AgUiEncoderState M) (events : List RuntimeStreamEvent) :
    Option (AgUiEncoderState M × List (AgUiEncodedEvent M)) :=
  emitAll (mapRuntimeStreamEventToAgUiEvents host) state events

end Encoder

end Veryfront.Agent.AgUi
