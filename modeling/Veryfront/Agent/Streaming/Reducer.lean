import Veryfront.Agent.Streaming.ToolInput

/-!
# The stream reducer

One signal at a time is folded into the state, and each gives its frames. The function keeps two
views of the tools, the map and the list in the snapshot, and numbers every frame from one counter.
-/

namespace Veryfront.Agent.Streaming

open Veryfront.Lib

/-! ## Emitting -/

structure StreamReduction where
  state : StreamReducerState
  frames : List StreamLifecycleFrame := []
  semanticProgress : Bool := false

namespace StreamReduction

variable (elapsedMs : Int) (d : StreamReduction)

def emit (body : FrameBody) : StreamReduction :=
  { d with
    state := { d.state with sequence := d.state.sequence + 1 }
    frames := d.frames ++ [⟨d.state.sequence + 1, elapsedMs, body⟩] }

def setSnapshot (f : StreamSnapshot → StreamSnapshot) : StreamReduction :=
  { d with state := { d.state with snapshot := f d.state.snapshot } }

def closeReasoning : StreamReduction :=
  match d.state.activeReasoningId with
  | none => d
  | some id =>
    let d := d.emit elapsedMs (.semantic (.reasoningEnd id none none))
    { d with state := { d.state with activeReasoningId := none } }

def closeText : StreamReduction :=
  match d.state.activeTextId with
  | none => d
  | some id =>
    let d := d.emit elapsedMs (.semantic (.textEnd (some id)))
    { d with state := { d.state with activeTextId := none } }

def closeOpenContent : StreamReduction := (d.closeReasoning elapsedMs).closeText elapsedMs

def openReasoning (id : JsText) : StreamReduction :=
  { d with state := { d.state with activeReasoningId := some id } }

/-- A text segment under a fresh id, with its start frame. -/
def openText : StreamReduction :=
  let id := textId d.state.nextTextIndex
  let d := { d with state := { d.state with activeTextId := some id, nextTextIndex := d.state.nextTextIndex + 1 } }
  d.emit elapsedMs (.semantic (.textStart (some id)))

def markProgress : StreamReduction :=
  { d.setSnapshot fun s => { s with phase := .streaming, hasSemanticProgress := true } with semanticProgress := true }

def setTool (id : JsText) (tool : StreamToolSnapshot) : StreamReduction :=
  { d with state := { d.state with tools := d.state.tools.set id tool } }

def syncToolSnapshot (phase : StreamLifecyclePhase) : StreamReduction :=
  d.setSnapshot fun s =>
    { s with
      phase
      tools := d.state.tools.values
      hasStreamOutput := s.hasStreamOutput ||
        d.state.tools.values.any fun tool => tool.rejectionReason ≠ some .unavailable }

def withProgress (progress : Bool) : StreamReduction := { d with semanticProgress := progress }

def failProtocol : StreamReduction :=
  let failed := { d with
    state := { d.state with
      terminal := true
      terminalError := some ⟨.protocolViolation, d.state.snapshot.phase, .runtime, false,
        "Provider stream violated the lifecycle protocol"⟩
      snapshot := { d.state.snapshot with phase := .failed } } }
  (failed.emit elapsedMs .protocolViolation).withProgress false

end StreamReduction

/-! ## Reasoning parts -/

/-- The delta goes to the part with the id, or to a new one at the end. -/
def appendReasoning (id delta : JsText) : List ReasoningPart → List ReasoningPart
  | [] => [{ id, text := delta }]
  | part :: parts =>
    if part.id = id then { part with text := part.text ++ delta } :: parts
    else part :: appendReasoning id delta parts

def signReasoning (id : JsText) (signature redactedData : Option JsText) (parts : List ReasoningPart) :
    List ReasoningPart :=
  parts.map fun part =>
    if part.id = id then
      { part with signature := signature.or part.signature, redactedData := redactedData.or part.redactedData }
    else part

/-! ## Tools -/

open StreamReduction

section
variable (json : JsonCodec) (elapsedMs : Int)

/-- What becomes of an unfinished local input when it has to be committed. -/
def settledInput (tool : StreamToolSnapshot) : Except RejectionReason JsValue :=
  if isBareEmptyObjectPlaceholder tool.inputText then .error .invalid
  else parseToolInputText json tool.inputText

def isPendingLocalInput (tool : StreamToolSnapshot) : Bool :=
  tool.providerExecuted ≠ some true && (tool.phase = .inputOpen || tool.phase = .inputStreaming)

def commitReadyInput (id : JsText) (tool : StreamToolSnapshot) (value : JsValue) (d : StreamReduction) : StreamReduction :=
  (d.setTool id { tool with phase := .inputReady, input := some value }).emit elapsedMs
    (.semantic (.toolInputReady id tool.name value none (if tool.dynamic then some true else none) none))

def rejectInput (id : JsText) (tool : StreamToolSnapshot) (reason : RejectionReason) (d : StreamReduction) : StreamReduction :=
  d.setTool id { tool with phase := .inputRejected, rejectionReason := some reason }

def emitRejection (id : JsText) (tool : StreamToolSnapshot) (reason : RejectionReason) (d : StreamReduction) : StreamReduction :=
  d.emit elapsedMs (.semantic (.toolInputRejected id tool.name reason))

def commitPendingInput (d : StreamReduction) (entry : JsText × StreamToolSnapshot) : StreamReduction :=
  let (id, tool) := entry
  if !isPendingLocalInput tool then d
  else match settledInput json tool with
    | .ok value => commitReadyInput elapsedMs id tool value d
    | .error reason => emitRejection elapsedMs id tool reason (rejectInput id tool reason d)

def commitPendingLocalInputs (d : StreamReduction) : StreamReduction :=
  let committed := d.state.tools.entries.foldl (commitPendingInput json elapsedMs) d
  committed.syncToolSnapshot committed.state.snapshot.phase

def readyLocal (tools : List StreamToolSnapshot) : List StreamToolSnapshot :=
  tools.filter fun tool => tool.phase = .inputReady && tool.providerExecuted ≠ some true

def rejectedLocal (tools : List StreamToolSnapshot) : List StreamToolSnapshot :=
  tools.filter fun tool => tool.phase = .inputRejected && tool.providerExecuted ≠ some true

def isUnavailableRecovery (recoverUnavailableToolCalls : Bool) (tools : List StreamToolSnapshot) : Bool :=
  recoverUnavailableToolCalls && rejectedLocal tools ≠ [] &&
    !(rejectedLocal tools).any fun tool => tool.rejectionReason ≠ some .unavailable

def finishStep (recoverUnavailableToolCalls : Bool) (finishReason : Option FinishReason)
    (providerMetadata : Option JsValue) (d : StreamReduction) : StreamReduction :=
  let d := d.closeOpenContent elapsedMs
  let d := if finishReason = some .toolCalls then commitPendingLocalInputs json elapsedMs d else d
  let d := d.emit elapsedMs (.semantic (.stepFinish finishReason providerMetadata))
  let tools := d.state.tools.values
  let terminalPhase : StreamLifecyclePhase :=
    if finishReason = some .toolCalls ∧
        ((readyLocal tools).length > 0 ∨ isUnavailableRecovery recoverUnavailableToolCalls tools) then .toolHandoff
    else if finishReason = some .toolCalls then .failed
    else .completed
  let incomplete := (rejectedLocal tools).any fun tool =>
    tool.rejectionReason = some .invalid || tool.rejectionReason = some .malformed
  let error : StreamLifecycleError :=
    { code := if incomplete then .toolInputIncomplete else .protocolViolation
      phase := d.state.snapshot.phase
      source := if incomplete then .tool else .runtime
      retryable := false
      publicMessage :=
        if incomplete then "Tool input ended before a valid object was complete"
        else "Provider requested tool handoff without an executable tool call" }
  { d with
    semanticProgress := true
    state := { d.state with
      terminal := true
      terminalError := if terminalPhase = .failed then some error else d.state.terminalError
      snapshot := { d.state.snapshot with
        finishReason
        providerMetadata := providerMetadata.or d.state.snapshot.providerMetadata
        phase := terminalPhase
        hasSemanticProgress := true } } }

def terminateTool (tool : StreamToolSnapshot) : StreamProtocolEvent → StreamToolSnapshot
  | .providerToolResult _ _ output true _ preliminary =>
    { tool with phase := .failed, error := some output, preliminary := preliminary.or tool.preliminary }
  | .providerToolResult _ _ output false _ preliminary =>
    { tool with phase := .succeeded, output := some output, preliminary := preliminary.or tool.preliminary }
  | .providerToolDenied .. =>
    { tool with phase := .denied, error := some (.string (js "Tool output denied")) }
  | .providerToolCancelled .. =>
    { tool with phase := .cancelled, error := some (.string (js "Provider tool execution was cancelled")) }
  | _ => tool

def isPreliminary : StreamProtocolEvent → Bool
  | .providerToolResult _ _ _ _ _ preliminary => preliminary = some true
  | _ => false

/-- A result, a denial or a cancellation by the provider. -/
def endProviderTool (toolCallId : JsText) (event : StreamProtocolEvent) (d : StreamReduction) : StreamReduction :=
  match d.state.tools.get? toolCallId with
  | none => d.failProtocol elapsedMs
  | some tool =>
    if tool.providerExecuted ≠ some true ∨ tool.phase ≠ .running then d.failProtocol elapsedMs
    else if isPreliminary event then (d.emit elapsedMs (.semantic event)).withProgress true
    else
      (((d.setTool toolCallId (terminateTool tool event)).syncToolSnapshot .streaming).emit elapsedMs
        (.semantic event)).withProgress true

def startToolInput (toolCallId toolName : JsText) (providerExecuted dynamic : Option Bool)
    (event : StreamProtocolEvent) (d : StreamReduction) : StreamReduction :=
  (((d.closeOpenContent elapsedMs).setTool toolCallId
    { id := toolCallId
      name := toolName
      phase := .inputOpen
      inputText := []
      inputDeltas := []
      providerExecuted
      dynamic := dynamic = some true }).syncToolSnapshot .awaitingToolInput).emit elapsedMs (.semantic event)

def appendToolInput (toolCallId delta : JsText) (event : StreamProtocolEvent) (d : StreamReduction) : StreamReduction :=
  match d.state.tools.get? toolCallId with
  | none => d.failProtocol elapsedMs
  | some tool =>
    if tool.phase ≠ .inputOpen ∧ tool.phase ≠ .inputStreaming then d.failProtocol elapsedMs
    else
      let inputText := mergeToolInputDelta tool.inputText delta
      (((d.setTool toolCallId
        { tool with phase := .inputStreaming, inputText, inputDeltas := tool.inputDeltas ++ [delta] }).syncToolSnapshot
          .awaitingToolInput).emit elapsedMs (.semantic event)).withProgress (inputText ≠ tool.inputText)

def finalInputText (prior : Option StreamToolSnapshot) (input : JsValue) : JsText :=
  let streamed := (prior.map StreamToolSnapshot.inputText).getD []
  match serializeToolInput json input with
  | none => if streamed.length > 0 then streamed else js "null"
  | some serialized => mergeToolCallInput json streamed serialized

def readyToolInput (toolCallId toolName : JsText) (input : JsValue) (providerExecuted dynamic : Option Bool)
    (event : StreamProtocolEvent) (d : StreamReduction) : StreamReduction :=
  let prior := d.state.tools.get? toolCallId
  let implicitDynamic := if dynamic = some true then some true else none
  let d := if prior.isSome then d else
    (d.emit elapsedMs (.semantic (.toolInputStart toolCallId toolName providerExecuted implicitDynamic false))).emit
      elapsedMs (.protocolRepair .implicitToolInputStart)
  (((d.setTool toolCallId
    { id := toolCallId
      name := toolName
      phase := .inputReady
      inputText := finalInputText json prior input
      inputDeltas := (prior.map StreamToolSnapshot.inputDeltas).getD []
      input := some input
      providerExecuted
      dynamic := dynamic = some true }).syncToolSnapshot .awaitingToolInput).emit elapsedMs (.semantic event)).withProgress true

def rejectToolInput (toolCallId toolName : JsText) (reason : RejectionReason) (event : StreamProtocolEvent)
    (d : StreamReduction) : StreamReduction :=
  let prior := d.state.tools.get? toolCallId
  ((d.setTool toolCallId
    { id := toolCallId
      name := toolName
      phase := .inputRejected
      inputText := (prior.map StreamToolSnapshot.inputText).getD []
      inputDeltas := (prior.map StreamToolSnapshot.inputDeltas).getD []
      rejectionReason := some reason }).syncToolSnapshot .awaitingToolInput).emit elapsedMs (.semantic event)

def startProviderTool (toolCallId : JsText) (event : StreamProtocolEvent) (d : StreamReduction) : StreamReduction :=
  match d.state.tools.get? toolCallId with
  | none => d.failProtocol elapsedMs
  | some tool =>
    if tool.providerExecuted ≠ some true ∨ tool.phase ≠ .inputReady then d.failProtocol elapsedMs
    else
      ((d.setTool toolCallId { tool with phase := .running }).syncToolSnapshot .streaming).emit elapsedMs (.semantic event)

/-! ## One event -/

def toolCallStatusName : JsText := js "tool-call-status"

def toolInputStatusOf (data : JsValue) : Option (JsText × ToolInputStatus) :=
  match data.field (js "toolCallId"), data.field (js "status") with
  | .string id, .string status =>
    if status = js "pending_input" then some (id, .pendingInput)
    else if status = js "streaming_input" then some (id, .streamingInput)
    else none
  | _, _ => none

/-- A status without data has no field to read, which throws. -/
def readsMissingStatus : StreamProtocolEvent → Bool
  | .custom name .undefined | .custom name .null => name = toolCallStatusName
  | _ => false

/-- The status of an input is telemetry; any other custom event goes through. -/
def reduceCustom (name : JsText) (data : JsValue) (d : StreamReduction) : StreamReduction :=
  if name = toolCallStatusName then
    match toolInputStatusOf data with
    | some (id, status) =>
      let toolName := (d.state.snapshot.tools.find? fun tool => tool.id = id).map StreamToolSnapshot.name
      d.emit elapsedMs (.toolInputStatus id toolName status)
    | none => d
  else d.emit elapsedMs (.semantic (.custom name data))

def reduceReasoningContent (id delta : JsText) (d : StreamReduction) : StreamReduction :=
  let d := d.closeText elapsedMs
  let d := if d.state.activeReasoningId = some id then d else
    (((d.closeReasoning elapsedMs).openReasoning id).emit elapsedMs (.semantic (.reasoningStart id))).emit elapsedMs
      (.protocolRepair .implicitReasoningStart)
  let d := (d.setSnapshot fun s => { s with reasoning := appendReasoning id delta s.reasoning }).emit elapsedMs
    (.semantic (.reasoningContent id delta))
  if delta.length > 0 then d.markProgress else d

def reduceReasoningEnd (id : JsText) (signature redactedData : Option JsText) (d : StreamReduction) : StreamReduction :=
  if d.state.activeReasoningId ≠ some id then d
  else
    let d := d.setSnapshot fun s => { s with reasoning := signReasoning id signature redactedData s.reasoning }
    let d := d.emit elapsedMs (.semantic (.reasoningEnd id signature redactedData))
    { d with state := { d.state with activeReasoningId := none } }

def reduceTextContent (delta : JsText) (d : StreamReduction) : StreamReduction :=
  let d := d.closeReasoning elapsedMs
  let d := if d.state.activeTextId.isSome then d else
    (d.openText elapsedMs).emit elapsedMs (.protocolRepair .implicitTextStart)
  let d := (d.setSnapshot fun s =>
    { s with
      accumulatedText := s.accumulatedText ++ delta
      hasStreamOutput := s.hasStreamOutput || delta.length > 0 }).emit elapsedMs
    (.semantic (.textContent d.state.activeTextId delta))
  if delta.length > 0 then d.markProgress else d

def reduceProtocolEvent (recoverUnavailableToolCalls : Bool) (event : StreamProtocolEvent) (d : StreamReduction) :
    StreamReduction :=
  match event with
  | .reasoningStart id =>
    (((d.closeText elapsedMs).closeReasoning elapsedMs).openReasoning id).emit elapsedMs (.semantic event)
  | .reasoningContent id delta => reduceReasoningContent elapsedMs id delta d
  | .reasoningEnd id signature redactedData => reduceReasoningEnd elapsedMs id signature redactedData d
  | .textStart _ => ((d.closeReasoning elapsedMs).closeText elapsedMs).openText elapsedMs
  | .textContent _ delta => reduceTextContent elapsedMs delta d
  | .textEnd _ => d.closeText elapsedMs
  | .custom name data => reduceCustom elapsedMs name data d
  | .messageStart _ | .stepStart => d.emit elapsedMs (.semantic event)
  | .toolInputStart id name providerExecuted dynamic _ => startToolInput elapsedMs id name providerExecuted dynamic event d
  | .toolInputContent id delta => appendToolInput elapsedMs id delta event d
  | .toolInputReady id name input providerExecuted dynamic _ =>
    readyToolInput json elapsedMs id name input providerExecuted dynamic event d
  | .toolInputRejected id name reason => rejectToolInput elapsedMs id name reason event d
  | .providerToolStart id _ => startProviderTool elapsedMs id event d
  | .providerToolResult id .. | .providerToolDenied id _ | .providerToolCancelled id _ =>
    endProviderTool elapsedMs id event d
  | .stepFinish finishReason providerMetadata =>
    finishStep json elapsedMs recoverUnavailableToolCalls finishReason providerMetadata d

def recordProgress (d : StreamReduction) : StreamReduction :=
  if d.semanticProgress && !d.state.snapshot.hasSemanticProgress then
    d.setSnapshot fun s => { s with hasSemanticProgress := true }
  else d

/-- `none` when the reduction throws. -/
def reduceStreamSignal (recoverUnavailableToolCalls : Bool) (state : StreamReducerState) (signal : StreamSignal) :
    Option StreamReduction :=
  let d : StreamReduction := { state }
  if state.terminal then some (d.emit elapsedMs .providerPartRejected)
  else match signal with
    | .usage usage => some ((d.setSnapshot fun s => { s with usage }).emit elapsedMs (.semanticUsage usage))
    | .providerError _ | .diagnosticCandidate .. => some d
    | .protocol event =>
      if readsMissingStatus event then none
      else some (recordProgress (reduceProtocolEvent json elapsedMs recoverUnavailableToolCalls event d))

end

def finalizeStreamProjection (elapsedMs : Int) (state : StreamReducerState) : StreamReduction :=
  StreamReduction.closeOpenContent elapsedMs { state }

/-! ## The local deadline -/

inductive LocalToolDeadlineResolution
  | handoff (reduction : StreamReduction)
  | failed (reduction : StreamReduction) (code : StreamErrorCode)

section
variable (json : JsonCodec) (elapsedMs : Int)

def hadInput (tool : StreamToolSnapshot) : Bool :=
  (stripLeadingEmptyObjectPlaceholder tool.inputText).length > 0

/-- Like a commit at the end of a step, but an input that never came is rejected without a frame. -/
def settleAtDeadline (d : StreamReduction) (entry : JsText × StreamToolSnapshot) : StreamReduction :=
  let (id, tool) := entry
  if !isPendingLocalInput tool then d
  else match settledInput json tool with
    | .ok value => commitReadyInput elapsedMs id tool value d
    | .error reason =>
      if hadInput tool then emitRejection elapsedMs id tool reason (rejectInput id tool reason d)
      else rejectInput id tool reason d

def resolveLocalToolDeadline (state : StreamReducerState) : LocalToolDeadlineResolution :=
  let receivedInput := state.tools.values.any fun tool => isPendingLocalInput tool && hadInput tool
  let d := state.tools.entries.foldl (settleAtDeadline json elapsedMs) { state }
  let tools := d.state.tools.values
  if (readyLocal tools).length > 0 then
    .handoff { d with
      semanticProgress := true
      state := { d.state with
        terminal := true
        snapshot := { d.state.snapshot with
          finishReason := some .toolCalls, phase := .toolHandoff, hasSemanticProgress := true, tools } } }
  else
    .failed { d with
        semanticProgress := false
        state := { d.state with terminal := true, snapshot := { d.state.snapshot with tools } } }
      (if receivedInput then .toolInputIncomplete else .toolInputTimeout)

end

end Veryfront.Agent.Streaming
