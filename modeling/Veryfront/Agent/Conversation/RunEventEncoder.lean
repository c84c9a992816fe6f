import Veryfront.Agent.AgUi.Encoder

/-!
# The durable encoder of a run

The chunks of a run are encoded twice: live, as AG-UI events, and as the records that the conversation keeps. This is
the second encoder, and what the first one is given for a chunk. JSON texts, the judgement of a tool's result and
the native frames are the host's; the timing stamps add two fields to each record and are left out, as are the
steps that a private observation names.
-/

namespace Veryfront.Agent.Conversation

open Lib
open AgUi (RuntimeStreamEvent truthy stepNameOf)
open Streaming (textId)

/-! ## Chunks -/

/-- The fields that an encoder reads. A start step has the private identity of its occurrence, if it was given one. -/
inductive ChatStreamEvent
  | start (messageId : Option JsText) (messageMetadata : JsValue)
  | messageMetadata (messageMetadata : JsValue)
  | textStart (id : JsText) (messageId contentId : Option JsText)
  | textDelta (id : JsText) (messageId contentId : Option JsText) (delta : JsText)
  | textEnd (id : JsText) (messageId contentId : Option JsText)
  | reasoningStart (id : JsText)
  | reasoningDelta (id delta : JsText)
  | reasoningEnd (id : JsText) (signature redactedData : Option JsText)
  | toolInputStart (toolCallId toolName : JsText) (providerExecuted : Option Bool) (observedResult : Bool)
  | toolInputDelta (toolCallId inputTextDelta : JsText)
  | toolInputAvailable (toolCallId toolName : JsText) (input : JsValue) (providerExecuted : Option Bool)
  | toolInputError (toolCallId toolName : JsText) (input : JsValue) (errorText : JsText) (providerExecuted : Option Bool)
  | toolApprovalRequest (approvalId toolCallId : JsText)
  | toolOutputAvailable (toolCallId : JsText) (output : JsValue) (preliminary providerExecuted : Option Bool)
  | toolOutputDenied (toolCallId : JsText) (providerExecuted : Option Bool)
  | toolOutputError (toolCallId errorText : JsText) (providerExecuted : Option Bool)
  | sourceUrl (fields : List (JsText × JsValue))
  | sourceDocument (fields : List (JsText × JsValue))
  | file (fields : List (JsText × JsValue))
  | startStep (identity : Option JsText)
  | finishStep
  | data (name : JsText) (data : JsValue)
  | finish (finishReason : Option JsText) (messageMetadata : JsValue)
  | abort
  | error (errorText : JsText) (code : Option JsText)

/-! ## What the live encoder is given -/

def textField (name : String) (value : JsText) : JsText × JsValue := (js name, .string value)

def optionalText (name : String) (value : Option JsText) : List (JsText × JsValue) :=
  (value.map fun value => textField name value).toList

def optionalFlag (name : String) (value : Option Bool) : List (JsText × JsValue) :=
  (value.map fun value => (js name, JsValue.bool value)).toList

def textFields (id : JsText) (messageId contentId : Option JsText) : List (JsText × JsValue) :=
  textField "id" id :: (optionalText "messageId" messageId ++ optionalText "contentId" contentId)

/-- The private identity of a step goes along under a name that no chunk has. -/
def stepIdentityName : String := "(step identity)"

def normalizeChatUiMessageChunkToAgUiRuntimeEvent : ChatStreamEvent → RuntimeStreamEvent
  | .start messageId metadata => ⟨js "message-start", optionalText "messageId" messageId ++ [(js "messageMetadata", metadata)]⟩
  | .messageMetadata metadata => ⟨js "message-metadata", [(js "messageMetadata", metadata)]⟩
  | .textStart id messageId contentId => ⟨js "text-start", textFields id messageId contentId⟩
  | .textDelta id messageId contentId delta => ⟨js "text-delta", textFields id messageId contentId ++ [textField "delta" delta]⟩
  | .textEnd id messageId contentId => ⟨js "text-end", textFields id messageId contentId⟩
  | .reasoningStart id => ⟨js "reasoning-start", [textField "id" id]⟩
  | .reasoningDelta id delta => ⟨js "reasoning-delta", [textField "id" id, textField "delta" delta]⟩
  | .reasoningEnd id signature redactedData =>
    ⟨js "reasoning-end",
      textField "id" id :: (optionalText "signature" signature ++ optionalText "redactedData" redactedData)⟩
  | .toolInputStart toolCallId toolName providerExecuted _ =>
    ⟨js "tool-input-start",
      [textField "toolCallId" toolCallId, textField "toolName" toolName] ++ optionalFlag "providerExecuted" providerExecuted⟩
  | .toolInputDelta toolCallId delta =>
    ⟨js "tool-input-delta", [textField "toolCallId" toolCallId, textField "inputTextDelta" delta]⟩
  | .toolInputAvailable toolCallId toolName input providerExecuted =>
    ⟨js "tool-input-available",
      [textField "toolCallId" toolCallId, textField "toolName" toolName, (js "input", input)] ++
        optionalFlag "providerExecuted" providerExecuted⟩
  | .toolInputError toolCallId toolName input errorText providerExecuted =>
    ⟨js "tool-input-error",
      [textField "toolCallId" toolCallId, textField "toolName" toolName, (js "input", input), textField "errorText" errorText] ++
        optionalFlag "providerExecuted" providerExecuted⟩
  | .toolApprovalRequest approvalId toolCallId =>
    ⟨js "tool-approval-request", [textField "approvalId" approvalId, textField "toolCallId" toolCallId]⟩
  | .toolOutputAvailable toolCallId output preliminary providerExecuted =>
    ⟨js "tool-output-available",
      [textField "toolCallId" toolCallId, (js "output", output)] ++ optionalFlag "preliminary" preliminary ++
        optionalFlag "providerExecuted" providerExecuted⟩
  | .toolOutputDenied toolCallId providerExecuted =>
    ⟨js "tool-output-denied", textField "toolCallId" toolCallId :: optionalFlag "providerExecuted" providerExecuted⟩
  | .toolOutputError toolCallId errorText providerExecuted =>
    ⟨js "tool-output-error",
      [textField "toolCallId" toolCallId, textField "errorText" errorText] ++ optionalFlag "providerExecuted" providerExecuted⟩
  | .sourceUrl fields => ⟨js "source-url", fields⟩
  | .sourceDocument fields => ⟨js "source-document", fields⟩
  | .file fields => ⟨js "file", fields⟩
  | .startStep identity => ⟨js "step-start", optionalText stepIdentityName identity⟩
  | .finishStep => ⟨js "step-end", []⟩
  | .data name data => ⟨js "data-" ++ name, [(js "data", data)]⟩
  | .finish finishReason metadata =>
    ⟨js "message-finish", optionalText "finishReason" finishReason ++ [(js "messageMetadata", metadata)]⟩
  | .abort => ⟨js "abort", []⟩
  | .error errorText code => ⟨js "error", textField "error" errorText :: optionalText "code" (truthy code)⟩

/-! ## Records -/

inductive ConversationRunEvent
  | textMessageStart (messageId contentId : JsText)
  | textMessageContent (messageId contentId delta : JsText)
  | textMessageEnd (messageId contentId : JsText)
  | reasoningMessageStart (messageId contentId : JsText)
  | reasoningMessageContent (messageId contentId delta : JsText)
  | reasoningMessageEnd (messageId contentId : JsText)
  | toolCallStart (toolCallId toolCallName : JsText) (parentMessageId : Option JsText) (providerExecuted : Option Bool)
      (startObservedFromResult : Bool)
  | toolCallArgs (toolCallId delta : JsText)
  | toolCallEnd (toolCallId : JsText) (providerExecuted : Option Bool)
  | toolCallResult (messageId : JsText) (parentMessageId : Option JsText) (toolCallId : JsText)
      (providerExecuted : Option Bool) (content : JsText) (contentIsText : Bool) (input : Option JsValue) (isError : Bool)
  | stepStarted (stepName stepId : JsText)
  | stepFinished (stepName : JsText) (stepId : Option JsText)
  | custom (name : JsText) (value : JsValue)
  | native (durable : JsValue)

/-- What the encoder calls. -/
structure RunEventHost where
  randomUUID : Nat → JsText
  serializeToolInput : JsValue → JsText
  /-- With whether the content is marked as text. -/
  serializeConversationToolResultContent : JsValue → JsText × Bool
  isToolResultErrorOutput : JsValue → Bool
  nativeFrame : (name : JsText) → (value : JsValue) → (parentMessageId : Option JsText) → Option JsValue

structure ConversationRunEventEncoder where
  streamedToolInputs : Finset JsText := ∅
  toolInputs : OrdMap JsText JsValue := .empty
  activeMessageId : Option JsText := none
  activeTextContentId : Option JsText := none
  openReasoningContentIds : OrdMap JsText JsText := .empty
  reasoningSegmentCounts : OrdMap JsText Nat := .empty
  textContentIndex : Nat := 0
  activeStepName : Option JsText := none
  activeStepId : Option JsText := none
  stepCount : Nat := 0
  /-- How many random ids have been drawn. -/
  uuidCount : Nat := 0

namespace ConversationRunEventEncoder

abbrev Encoded := ConversationRunEventEncoder × List ConversationRunEvent

variable (encoder : ConversationRunEventEncoder)

/-! ## Identities -/

def getToolResultMessageId (toolCallId : JsText) : JsText :=
  match truthy encoder.activeMessageId with
  | some messageId => messageId ++ js ":tool:" ++ toolCallId
  | none => js "tool:" ++ toolCallId

def getTextMessagePayload (id : JsText) (explicitMessageId explicitContentId : Option JsText) (ends : Bool) :
    JsText × JsText × ConversationRunEventEncoder :=
  let messageId := ((truthy explicitMessageId).or encoder.activeMessageId).getD id
  let chunkContentId := if id ≠ messageId then some id else none
  let known := ((truthy explicitContentId).or chunkContentId).or encoder.activeTextContentId
  let contentId := known.getD (textId encoder.textContentIndex)
  (messageId, contentId,
    { encoder with
      activeTextContentId := if ends then none else some contentId
      textContentIndex := if known.isSome then encoder.textContentIndex else encoder.textContentIndex + 1 })

def reasoningContentId (messageId : JsText) (ordinal : Nat) : JsText := messageId ++ js ":reasoning:" ++ js (toString ordinal)

def getReasoningMessagePayload (id : JsText) (ends : Bool) : JsText × JsText × ConversationRunEventEncoder :=
  let messageId := encoder.activeMessageId.getD id
  let (contentId, encoder) :=
    match encoder.openReasoningContentIds.get? id with
    | some contentId => (contentId, encoder)
    | none =>
      let ordinal := (encoder.reasoningSegmentCounts.get? messageId).getD 0
      let contentId := reasoningContentId messageId ordinal
      (contentId,
        { encoder with
          reasoningSegmentCounts := encoder.reasoningSegmentCounts.set messageId (ordinal + 1)
          openReasoningContentIds := encoder.openReasoningContentIds.set id contentId })
  (messageId, contentId,
    if ends then { encoder with openReasoningContentIds := encoder.openReasoningContentIds.erase id } else encoder)

variable (host : RunEventHost)

/-! ## Steps and tools -/

def nextStep (identity : Option JsText) : JsText × JsText × ConversationRunEventEncoder :=
  let stepName := stepNameOf (encoder.stepCount + 1)
  let stepId := identity.getD (host.randomUUID encoder.uuidCount)
  (stepName, stepId,
    { encoder with
      stepCount := encoder.stepCount + 1
      activeStepName := some stepName
      activeStepId := some stepId
      uuidCount := if identity.isSome then encoder.uuidCount else encoder.uuidCount + 1 })

def finishStep : Encoded :=
  ({ encoder with activeStepName := none, activeStepId := none },
    [.stepFinished (encoder.activeStepName.getD (stepNameOf (max encoder.stepCount 1))) encoder.activeStepId])

def releaseToolCallState (toolCallId : JsText) : ConversationRunEventEncoder :=
  { encoder with
    toolInputs := encoder.toolInputs.erase toolCallId
    streamedToolInputs := encoder.streamedToolInputs.erase toolCallId }

def completeToolInput (toolCallId : JsText) (input : JsValue) (providerExecuted : Option Bool) : Encoded :=
  ({ encoder with toolInputs := encoder.toolInputs.set toolCallId input },
    (if toolCallId ∈ encoder.streamedToolInputs then [] else [.toolCallArgs toolCallId (host.serializeToolInput input)]) ++
      [.toolCallEnd toolCallId providerExecuted])

def resolveToolCall (toolCallId : JsText) (providerExecuted : Option Bool) (content : JsText × Bool) (isError : Bool) : Encoded :=
  (encoder.releaseToolCallState toolCallId,
    [.toolCallResult (encoder.getToolResultMessageId toolCallId) (truthy encoder.activeMessageId) toolCallId providerExecuted
      content.1 content.2 (encoder.toolInputs.get? toolCallId) isError])

def nativeOrCustom (name : JsText) (value : JsValue) : Encoded :=
  match host.nativeFrame name value encoder.activeMessageId with
  | some durable => (encoder, [.native durable])
  | none => (encoder, [.custom name value])

def encodeFile (type : String) (fields : List (JsText × JsValue)) : Encoded :=
  encoder.nativeOrCustom host (js type) (.object ((js "type", .string (js type)) :: fields))

/-- The name of a finalization, which no chunk of a provider may use. -/
def toolResultOwnershipCorrection : String := "veryfront.tool_result_ownership"

def encodeCustomDataEvent (name : JsText) (data : JsValue) : Encoded :=
  if name = [] ∨ name = js toolResultOwnershipCorrection then (encoder, [])
  else encoder.nativeOrCustom host name data

/-! ## The encoding -/

def encodeChunk : ChatStreamEvent → Encoded
  | .start messageId _ => ({ encoder with activeMessageId := messageId }, [])
  | .textStart id messageId contentId =>
    let (messageId, contentId, encoder) := encoder.getTextMessagePayload id messageId contentId false
    (encoder, [.textMessageStart messageId contentId])
  | .textDelta id messageId contentId delta =>
    let (messageId, contentId, encoder) := encoder.getTextMessagePayload id messageId contentId false
    (encoder, [.textMessageContent messageId contentId delta])
  | .textEnd id messageId contentId =>
    let (messageId, contentId, encoder) := encoder.getTextMessagePayload id messageId contentId true
    (encoder, [.textMessageEnd messageId contentId])
  | .reasoningStart id =>
    let (messageId, contentId, encoder) := encoder.getReasoningMessagePayload id false
    (encoder, [.reasoningMessageStart messageId contentId])
  | .reasoningDelta id delta =>
    let (messageId, contentId, encoder) := encoder.getReasoningMessagePayload id false
    (encoder, [.reasoningMessageContent messageId contentId delta])
  | .reasoningEnd id _ _ =>
    if encoder.openReasoningContentIds.contains id then
      let (messageId, contentId, encoder) := encoder.getReasoningMessagePayload id true
      (encoder, [.reasoningMessageEnd messageId contentId])
    else (encoder, [])
  | .toolInputStart toolCallId toolName providerExecuted observedResult =>
    (encoder, [.toolCallStart toolCallId toolName (truthy encoder.activeMessageId) providerExecuted observedResult])
  | .toolInputDelta toolCallId delta =>
    ({ encoder with streamedToolInputs := insert toolCallId encoder.streamedToolInputs }, [.toolCallArgs toolCallId delta])
  | .toolInputAvailable toolCallId _ input providerExecuted =>
    encoder.completeToolInput host toolCallId input providerExecuted
  | .toolInputError toolCallId _ input errorText providerExecuted =>
    let (encoder, completed) := encoder.completeToolInput host toolCallId input providerExecuted
    let (encoder, resolved) := encoder.resolveToolCall toolCallId none
      (host.serializeConversationToolResultContent (.string errorText)) true
    (encoder, completed ++ resolved)
  | .toolOutputAvailable toolCallId output preliminary providerExecuted =>
    if preliminary = some true then (encoder, [])
    else encoder.resolveToolCall toolCallId providerExecuted (host.serializeConversationToolResultContent output)
      (providerExecuted ≠ some true && host.isToolResultErrorOutput output)
  | .toolOutputError toolCallId errorText providerExecuted =>
    encoder.resolveToolCall toolCallId providerExecuted (host.serializeConversationToolResultContent (.string errorText)) true
  | .toolOutputDenied toolCallId providerExecuted =>
    encoder.resolveToolCall toolCallId providerExecuted (js "Tool output denied", false) true
  | .sourceUrl fields => encoder.encodeFile host "source-url" fields
  | .sourceDocument fields => encoder.encodeFile host "source-document" fields
  | .file fields => encoder.encodeFile host "file" fields
  | .startStep identity =>
    let (stepName, stepId, encoder) := encoder.nextStep host identity
    (encoder, [.stepStarted stepName stepId])
  | .finishStep => encoder.finishStep
  | .error _ _ | .finish _ _ | .abort | .messageMetadata _ | .toolApprovalRequest _ _ => (encoder, [])
  | .data name data =>
    if name = js "veryfront.manual_pause" then (encoder, []) else encoder.encodeCustomDataEvent host name data

def encodeConversationRunEvents (encoder : ConversationRunEventEncoder) : List ChatStreamEvent → Encoded
  | [] => (encoder, [])
  | chunk :: chunks =>
    let (next, events) := encoder.encodeChunk host chunk
    let (last, rest) := encodeConversationRunEvents next chunks
    (last, events ++ rest)

end ConversationRunEventEncoder

end Veryfront.Agent.Conversation
