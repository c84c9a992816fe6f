import Veryfront.Agent.Streaming.Reducer

/-!
# The runtime provider adapter

Each part of the runtime's stream is decoded against the current snapshot into the signals of the
reducer. The decoder filters parts that come too late, and fills in what a provider left out.
-/

namespace Veryfront.Agent.Streaming

open Veryfront.Lib

/-! ## Parts -/

structure ToolResultPart where
  toolCallId : JsText
  toolName : JsText
  output : JsValue := .undefined
  result : JsValue := .undefined
  error : JsValue := .undefined
  input : JsValue := .undefined
  providerExecuted : Option Bool := none
  dynamic : Option Bool := none
  preliminary : Option Bool := none
  isError : Option Bool := none

structure RuntimeUsage where
  inputTokens : Option Int := none
  outputTokens : Option Int := none
  totalTokens : Option Int := none
  cacheReadInputTokens : Option Int := none
  cachedInputTokens : Option Int := none
  tail : List (String × String) := []

/-- A part as the runtime types it; `other` is anything that has no such type. -/
inductive RuntimeStreamPart
  | textDelta (text : JsText)
  | reasoningStart (id : JsText)
  | reasoningDelta (id delta : JsText)
  | reasoningEnd (id : JsText) (signature redactedData : Option JsText)
  | data (name : JsText) (data : JsValue)
  | toolInputStart (id toolName : JsText) (providerExecuted dynamic : Option Bool)
  | toolInputDelta (id delta : JsText)
  | toolInputEnd (id : JsText)
  | toolInputAvailable (toolCallId id : Option JsText) (toolName : JsText) (input : JsValue)
      (providerExecuted dynamic : Option Bool)
  | toolCall (toolCallId toolName : JsText) (input : JsValue) (providerExecuted dynamic : Option Bool)
  | toolResult (part : ToolResultPart)
  | toolError (part : ToolResultPart)
  | finish (finishReason : Option JsText) (providerMetadata : Option JsValue) (totalUsage : Option RuntimeUsage)
  | error (error : JsValue)
  | other (partType : JsText)

structure RuntimeStreamProviderOptions where
  availableToolNames : Option (List JsText)
  providerExecutedToolNames : List JsText
  dynamicToolNames : List JsText := []

/-- What the adapter asks of the rest of the runtime. -/
structure AdapterEnvironment where
  json : JsonCodec
  isDynamicTool : JsText → Bool
  resolveKnownProviderTerminalError : JsValue → Option (String × String)

/-! ## Tool results -/

def hasNonBlankString : JsValue → Option JsText
  | .string text => if (trim text).length > 0 then some text else none
  | _ => none

def isStringField (name : JsText) (value : JsValue) : Bool :=
  match value.field name with
  | .string _ => true
  | _ => false

def isTrueField (name : JsText) (value : JsValue) : Bool :=
  match value.field name with
  | .bool true => true
  | _ => false

def hasToolExecutionErrorMarker (value : JsValue) : Bool :=
  isStringField (js "error") value || isTrueField (js "isError") value

def hasIntegrationAuthenticationActionError (value : JsValue) : Bool :=
  match value.field (js "error") with
  | .string error => error = js "authentication_required" || error = js "reconnect_required"
  | _ => false

def isIntegrationAuthenticationActionResult (value : JsValue) : Bool :=
  hasIntegrationAuthenticationActionError value && (hasNonBlankString (value.field (js "integration"))).isSome &&
    (hasNonBlankString (value.field (js "connectUrl"))).isSome

def getMcpToolErrorMessage (result : JsValue) : Option JsText :=
  match result.field (js "error") with
  | .string error =>
    if error.length = 0 then none
    else some ((hasNonBlankString (result.field (js "message"))).getD error)
  | _ => none

def getToolResultError (result : JsValue) : Option JsText :=
  if isIntegrationAuthenticationActionResult result then none
  else if !hasToolExecutionErrorMarker result then none
  else if hasIntegrationAuthenticationActionError result then
    some ((hasNonBlankString (result.field (js "message"))).getD (js "Integration authentication response is incomplete"))
  else match getMcpToolErrorMessage result with
    | some message => some message
    | none => match result.field (js "error") with
      | .string error => some (if error.length > 0 then error else [quote, quote])
      | _ => some ((hasNonBlankString (result.field (js "message"))).getD (js "Tool execution failed"))

section
variable (json : JsonCodec)

def parseSerializedToolOutput (output : JsValue) : JsValue :=
  match output with
  | .string text =>
    if [openBrace].isPrefixOf (trim text) then (json.parse (trim text)).getD output else output
  | _ => output

def isProviderToolResultError (output : JsValue) : Bool :=
  match (parseSerializedToolOutput json output).field (js "type") with
  | .string type => (js "_tool_result_error").isSuffixOf type
  | _ => false

end

/-! ## Options -/

section
variable (env : AdapterEnvironment) (options : RuntimeStreamProviderOptions)

def isToolAvailable (toolName : JsText) : Bool :=
  match options.availableToolNames with
  | none => true
  | some names => names.contains toolName

def resolveProviderExecuted (explicit : Option Bool) (toolName : JsText) : Option Bool :=
  explicit.or (if options.providerExecutedToolNames.contains toolName then some true else none)

def resolveDynamic (explicit : Option Bool) (toolName : JsText) : Option Bool :=
  explicit.or (if options.dynamicToolNames.contains toolName || env.isDynamicTool toolName then some true else none)

/-- A flag that is passed on only when it is set. -/
def dynamicFlag (dynamic : Option Bool) : Option Bool := if dynamic = some true then some true else none

def findTool (snapshot : StreamSnapshot) (toolCallId : JsText) : Option StreamToolSnapshot :=
  snapshot.tools.find? fun tool => tool.id = toolCallId

def unknownRuntimePart (partType : JsText) : StreamSignal :=
  .diagnosticCandidate "unknown_runtime_part" (.object [(js "partType", .string partType)])

def normalizeRuntimeUsage (usage : RuntimeUsage) : StreamUsage :=
  let inputTokens := usage.inputTokens.getD 0
  let outputTokens := usage.outputTokens.getD 0
  { inputTokens
    outputTokens
    totalTokens := usage.totalTokens.getD (inputTokens + outputTokens)
    cachedInputTokens := usage.cachedInputTokens.or usage.cacheReadInputTokens
    tail := usage.tail }

def normalizeFinishReason : Option JsText → Option FinishReason
  | none => none
  | some reason =>
    if reason = js "stop" then some .stop
    else if reason = js "length" then some .length
    else if reason = js "tool-calls" then some .toolCalls
    else if reason = js "content-filter" then some .contentFilter
    else if reason = js "error" ∨ reason = js "unknown" then none
    else some .other

def classifyRuntimeProviderError (error : JsValue) : StreamProviderError :=
  match env.resolveKnownProviderTerminalError error with
  | some (code, message) => ⟨code, message, isTrueField (js "retryable") error, true⟩
  | none => ⟨"PROVIDER_STREAM_ERROR", "Provider stream failed", true, false⟩

/-! ## Tools -/

def toolStartSignal (id toolName : JsText) (providerExecuted dynamic : Option Bool) : StreamSignal :=
  if !isToolAvailable options toolName then .protocol (.toolInputRejected id toolName .unavailable)
  else .protocol (.toolInputStart id toolName (resolveProviderExecuted options providerExecuted toolName)
    (dynamicFlag (resolveDynamic env options dynamic toolName)) false)

def toolDeltaSignals (id delta : JsText) (snapshot : StreamSnapshot) : List StreamSignal :=
  if (findTool snapshot id).any fun tool => tool.phase = .inputRejected then []
  else [.protocol (.toolInputContent id delta)]

def toolEndSignals (json : JsonCodec) (toolCallId : JsText) (snapshot : StreamSnapshot) : List StreamSignal :=
  match findTool snapshot toolCallId with
  | none => [unknownRuntimePart (js "tool-input-end")]
  | some tool =>
    if tool.phase ≠ .inputOpen ∧ tool.phase ≠ .inputStreaming then []
    else match parseToolInputText json tool.inputText with
      | .ok value =>
        [.protocol (.toolInputReady toolCallId tool.name value tool.providerExecuted (dynamicFlag (some tool.dynamic)) none)]
      | .error reason => [.protocol (.toolInputRejected toolCallId tool.name reason)]

/-- The text of a final input: a string as it is, anything else serialized, and nothing as an empty object. -/
def finalText (json : JsonCodec) : JsValue → Option JsText
  | .string text => some text
  | .undefined | .null => json.stringify (.object [])
  | input => json.stringify input

def parseFinalInput (json : JsonCodec) (streamed : JsText) (input : JsValue) : Option (Except RejectionReason JsValue) := do
  let text ← finalText json input
  some (match input with
    | .object fields => .ok (.object fields)
    | _ => parseToolInputText json (mergeToolCallInput json streamed text))

/-- `none` when the input cannot be serialized, which throws. -/
def toolReadySignals (toolCallId toolName : JsText) (input : JsValue) (providerExecuted dynamic : Option Bool)
    (partType : JsText) (snapshot : StreamSnapshot) (announced : Option Bool) : Option (List StreamSignal) :=
  if toolCallId.length = 0 then some [unknownRuntimePart partType]
  else
    let prior := findTool snapshot toolCallId
    if prior.any fun tool => tool.phase = .inputRejected then some []
    else if !isToolAvailable options toolName then
      some [.protocol (.toolInputRejected toolCallId toolName .unavailable)]
    else do
      let parsed ← parseFinalInput env.json ((prior.map StreamToolSnapshot.inputText).getD []) input
      some [.protocol (match parsed with
        | .error reason => .toolInputRejected toolCallId toolName reason
        | .ok value => .toolInputReady toolCallId toolName value (resolveProviderExecuted options providerExecuted toolName)
          (dynamicFlag (resolveDynamic env options dynamic toolName)) announced)]

def isTerminalPhase (phase : ToolPhase) : Bool :=
  phase = .succeeded || phase = .failed || phase = .denied || phase = .cancelled

def rawOutput (isToolError : Bool) (part : ToolResultPart) : JsValue :=
  let plain := match part.output with
    | .undefined => part.result
    | output => output
  let failed := part.isError.getD (match part.error with
    | .undefined => false
    | _ => true)
  if isToolError then part.error
  else if failed then
    match part.error with
    | .undefined | .null => plain
    | error => error
  else plain

def providerToolResultEvent (isToolError : Bool) (part : ToolResultPart) : StreamProtocolEvent :=
  let raw := rawOutput isToolError part
  let inferredToolError := if isToolError then none else getToolResultError raw
  let isExplicitError :=
    (isToolError || part.isError = some true ||
      (part.preliminary ≠ some true && isProviderToolResultError env.json raw)) &&
    !isIntegrationAuthenticationActionResult raw
  let isError := isExplicitError || inferredToolError.isSome
  let output := if isExplicitError then raw else (inferredToolError.map JsValue.string).getD raw
  .providerToolResult part.toolCallId part.toolName output isError
    (dynamicFlag (resolveDynamic env options part.dynamic part.toolName)) (if isError then none else part.preliminary)

def synthesizedInput (part : ToolResultPart) : JsValue :=
  match part.input with
  | .undefined => .object []
  | input => input

def providerToolTerminalSignals (isToolError : Bool) (part : ToolResultPart) (snapshot : StreamSnapshot) : List StreamSignal :=
  let tool := findTool snapshot part.toolCallId
  let terminal := StreamSignal.protocol (providerToolResultEvent env options isToolError part)
  let start := StreamSignal.protocol (.providerToolStart part.toolCallId part.toolName)
  let dynamic := dynamicFlag (resolveDynamic env options part.dynamic part.toolName)
  let explicit := resolveProviderExecuted options part.providerExecuted part.toolName = some true
  if tool.any fun tool => tool.phase = .inputRejected || isTerminalPhase tool.phase then []
  else if tool.any fun tool => tool.phase = .running then [terminal]
  else if tool.any fun tool => tool.phase = .inputReady then [start, terminal]
  else
    [.protocol (.toolInputStart part.toolCallId part.toolName (some true) dynamic tool.isNone),
      .protocol (.toolInputReady part.toolCallId part.toolName (synthesizedInput part) (some true) dynamic none),
      start,
      .diagnosticCandidate "provider_tool_input_synthesized" (.object
        [(js "partType", .string (if isToolError then js "tool-error" else js "tool-result")),
          (js "explicitProviderExecuted", .bool explicit)]),
      terminal]

/-! ## One part -/

def reasoningId (id : JsText) : JsText := if id = [] then js "reasoning" else id

def nonEmpty (text : Option JsText) : Option JsText := text.filter fun text => text ≠ []

/-- `none` when the part cannot be decoded, which throws. -/
def decodeRuntimeStreamPart (part : RuntimeStreamPart) (snapshot : StreamSnapshot) : Option (List StreamSignal) :=
  match part with
  | .data name data => some (if name = toolCallStatusName then [] else [.protocol (.custom name data)])
  | .textDelta text => some [.protocol (.textContent none text)]
  | .reasoningStart id => some [.protocol (.reasoningStart (reasoningId id))]
  | .reasoningDelta id delta => some [.protocol (.reasoningContent (reasoningId id) delta)]
  | .reasoningEnd id signature redactedData =>
    some [.protocol (.reasoningEnd (reasoningId id) (nonEmpty signature) (nonEmpty redactedData))]
  | .toolInputStart id toolName providerExecuted dynamic =>
    some [toolStartSignal env options id toolName providerExecuted dynamic]
  | .toolInputDelta id delta => some (toolDeltaSignals id delta snapshot)
  | .toolInputEnd id => some (toolEndSignals env.json id snapshot)
  | .toolInputAvailable toolCallId id toolName input providerExecuted dynamic =>
    toolReadySignals env options ((toolCallId.or id).getD []) toolName input providerExecuted dynamic
      (js "tool-input-available") snapshot (some true)
  | .toolCall toolCallId toolName input providerExecuted dynamic =>
    toolReadySignals env options toolCallId toolName input providerExecuted dynamic (js "tool-call") snapshot none
  | .toolResult part => some (providerToolTerminalSignals env options false part snapshot)
  | .toolError part => some (providerToolTerminalSignals env options true part snapshot)
  | .finish finishReason providerMetadata totalUsage =>
    some ((totalUsage.map fun usage => StreamSignal.usage (normalizeRuntimeUsage usage)).toList ++
      [.protocol (.stepFinish (normalizeFinishReason finishReason) providerMetadata)])
  | .error error => some [.providerError (classifyRuntimeProviderError env error)]
  | .other partType => some [unknownRuntimePart partType]

end

end Veryfront.Agent.Streaming
