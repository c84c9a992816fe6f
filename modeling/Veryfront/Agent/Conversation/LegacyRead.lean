import Veryfront.Agent.Streaming.PartRuns

/-!
# Reading a stored run of version 1

The stored events of a run are fed to the reducer one after the other, and the frames it gives are
the history that clients see. A call that stored no owner may have it bound later by a correction.
-/

namespace Veryfront.Agent.Conversation

open Veryfront.Lib Veryfront.Agent.Streaming

/-! ## Stored events -/

/-- The fields of a stored JSON object. -/
abbrev StoredEvent := List (JsText × JsValue)

namespace StoredEvent

def get (event : StoredEvent) (name : JsText) : JsValue := JsValue.field name (.object event)

def string? (event : StoredEvent) (name : JsText) : Option JsText :=
  match event.get name with
  | .string text => some text
  | _ => none

/-- A field is the very string. -/
def isString (event : StoredEvent) (name text : JsText) : Bool := event.string? name = some text

def bool? (event : StoredEvent) (name : JsText) : Option Bool :=
  match event.get name with
  | .bool value => some value
  | _ => none

def isMissing (event : StoredEvent) (name : JsText) : Bool :=
  match event.get name with
  | .undefined => true
  | _ => false

def put (event : StoredEvent) (name : JsText) (value : JsValue) : StoredEvent := OrdMap.setEntries event name value

def without (event : StoredEvent) (names : List JsText) : StoredEvent := event.filter fun field => !names.contains field.1

end StoredEvent

inductive StoredType
  | textMessageStart | textMessageContent | textMessageEnd
  | reasoningMessageStart | reasoningMessageContent | reasoningMessageEnd
  | toolCallStart | toolCallArgs | toolCallEnd | toolCallResult
  | custom | other
deriving DecidableEq, Repr

def storedTypes : List (JsText × StoredType) :=
  [(js "TEXT_MESSAGE_START", .textMessageStart), (js "TEXT_MESSAGE_CONTENT", .textMessageContent),
    (js "TEXT_MESSAGE_END", .textMessageEnd), (js "REASONING_MESSAGE_START", .reasoningMessageStart),
    (js "REASONING_MESSAGE_CONTENT", .reasoningMessageContent), (js "REASONING_MESSAGE_END", .reasoningMessageEnd),
    (js "TOOL_CALL_START", .toolCallStart), (js "TOOL_CALL_ARGS", .toolCallArgs), (js "TOOL_CALL_END", .toolCallEnd),
    (js "TOOL_CALL_RESULT", .toolCallResult), (js "CUSTOM", .custom)]

def storedType (event : StoredEvent) : StoredType :=
  match event.string? (js "type") with
  | some type => ((storedTypes.find? fun entry => entry.1 = type).map Prod.snd).getD .other
  | none => .other

/-- The positions of the events that satisfy a test. -/
def indicesOf (p : StoredEvent → Bool) (events : List StoredEvent) : List Nat :=
  (events.zipIdx.filter fun entry => p entry.1).map Prod.snd

structure ToolOccurrence where
  starts : List Nat
  ends : List Nat
  results : List Nat

def toolOccurrence (events : List StoredEvent) (toolCallId : JsText) : ToolOccurrence :=
  let positions (type : StoredType) :=
    indicesOf (fun event => event.isString (js "toolCallId") toolCallId && storedType event = type) events
  ⟨positions .toolCallStart, positions .toolCallEnd, positions .toolCallResult⟩

def toolCallIds (events : List StoredEvent) : List JsText :=
  (events.filterMap fun event => event.string? (js "toolCallId")).eraseDups

def onlyOne : List Nat → Option Nat
  | [index] => some index
  | _ => none

def ToolOccurrence.complete? (occurrence : ToolOccurrence) : Option (Nat × Nat × Nat) := do
  let start ← onlyOne occurrence.starts
  let endAt ← onlyOne occurrence.ends
  let result ← onlyOne occurrence.results
  some (start, endAt, result)

/-! ## Ownership corrections -/

structure Correction where
  toolCallId : JsText
  toolName : JsText
  parentMessageId : JsText

def correctionKeys : List JsText :=
  [js "schemaVersion", js "providerExecuted", js "toolCallId", js "toolName", js "parentMessageId"]

def isOne : JsValue → Bool
  | .number text => text = "1"
  | _ => false

def nonEmptyString? (event : StoredEvent) (name : JsText) : Option JsText :=
  (event.string? name).filter fun text => text ≠ []

def readCorrection : JsValue → Option Correction
  | .object record => do
    guard (record.length = correctionKeys.length ∧ correctionKeys.all fun key => (record.map Prod.fst).contains key)
    guard (isOne (StoredEvent.get record (js "schemaVersion")))
    guard (StoredEvent.bool? record (js "providerExecuted") = some true)
    let toolCallId ← nonEmptyString? record (js "toolCallId")
    let toolName ← nonEmptyString? record (js "toolName")
    let parentMessageId ← nonEmptyString? record (js "parentMessageId")
    some ⟨toolCallId, toolName, parentMessageId⟩
  | _ => none

def TOOL_RESULT_OWNERSHIP_CORRECTION : JsText := js "veryfront.tool_result_ownership"
def TOOL_RESULT_OWNERSHIP_ORIGIN : JsText := js "veryfront.finalization"

def isOwnershipCorrection (event : StoredEvent) : Bool :=
  storedType event = .custom && event.isString (js "name") TOOL_RESULT_OWNERSHIP_CORRECTION &&
    event.isString (js "origin") TOOL_RESULT_OWNERSHIP_ORIGIN

/-- The call that a correction names, well formed or not. -/
def correctedId (event : StoredEvent) : Option JsText :=
  match event.get (js "value") with
  | .object record => StoredEvent.string? record (js "toolCallId")
  | _ => none

/-- The stored name of a call, under either of its two fields. -/
def hasToolName (event : StoredEvent) (toolName : JsText) : Bool :=
  match event.get (js "toolName") with
  | .undefined | .null => event.isString (js "toolCallName") toolName
  | _ => event.isString (js "toolName") toolName

def matchesOriginalToolResult (events : List StoredEvent) (start endAt result index : Nat) (value : Correction) : Bool :=
  match events[start]?, events[endAt]?, events[result]? with
  | some started, some ended, some output =>
    decide (start < endAt ∧ endAt < result ∧ result < index) &&
      ([started, ended, output].all fun event => event.isMissing (js "providerExecuted")) &&
      hasToolName started value.toolName &&
      started.isString (js "parentMessageId") value.parentMessageId &&
      output.isString (js "parentMessageId") value.parentMessageId &&
      (output.isMissing (js "toolName") || output.isString (js "toolName") value.toolName) &&
      (ended.isMissing (js "parentMessageId") || ended.isString (js "parentMessageId") value.parentMessageId)
  | _, _, _ => false

structure OwnershipCorrections where
  ends : List Nat
  results : List Nat
  consumed : List Nat
  invalid : List Nat

def acceptedCorrections (events : List StoredEvent) : List (Nat × Nat × Nat) :=
  let corrections := events.zipIdx.filterMap fun entry =>
    if isOwnershipCorrection entry.1 then (readCorrection (entry.1.get (js "value"))).map fun value => (entry.2, value) else none
  let named := events.filterMap fun event => if isOwnershipCorrection event then correctedId event else none
  ((corrections.map fun entry => entry.2.toolCallId).eraseDups).filterMap fun id =>
    match corrections.filter fun entry => entry.2.toolCallId = id with
    | [(index, value)] =>
      if named.count id ≠ 1 then none
      else (toolOccurrence events id).complete?.bind fun (start, endAt, result) =>
        if matchesOriginalToolResult events start endAt result index value then some (endAt, result, index) else none
    | _ => none

def resolveToolResultOwnershipCorrections (events : List StoredEvent) : OwnershipCorrections :=
  let accepted := acceptedCorrections events
  let consumed := accepted.map fun entry => entry.2.2
  { ends := accepted.map Prod.fst
    results := accepted.map fun entry => entry.2.1
    consumed
    invalid := (indicesOf isOwnershipCorrection events).filter fun index => !consumed.contains index }

def resultOwnedEnds (events : List StoredEvent) : List Nat :=
  (toolCallIds events).filterMap fun id => do
    let (start, endAt, result) ← (toolOccurrence events id).complete?
    let started ← events[start]?
    let ended ← events[endAt]?
    let output ← events[result]?
    if start ≥ endAt ∨ endAt ≥ result ∨ output.bool? (js "providerExecuted") ≠ some true then none
    else if (started.bool? (js "providerExecuted")).isSome ∨ (ended.bool? (js "providerExecuted")).isSome then none
    else some endAt

/-! ## Native records -/

def DURABLE_ENVELOPE_KEYS : List JsText :=
  [js "type", js "stream_protocol_version", js "attempt_id", js "attempt_index", js "logical_sequence",
    js "idempotency_key", js "elapsedMs", js "emittedAt"]

/-- The stored types of the native events, with the custom names they replace. -/
def NATIVE_RUN_EVENTS : List (JsText × JsText) :=
  [(js "TOOL_CALL_STATUS_CHANGED", js "tool-call-status"),
    (js "INPUT_REQUEST_CREATED", js "veryfront.input_request.lifecycle"),
    (js "INPUT_REQUEST_UPDATED", js "veryfront.input_request.lifecycle"),
    (js "CHILD_RUN_STATUS_CHANGED", js "veryfront.invoke_agent.lifecycle"),
    (js "URL_CITED", js "source-url"),
    (js "DOCUMENT_CITED", js "source-document"),
    (js "FILE_ATTACHED", js "file"),
    (js "RUNTIME_EVENT_RECORDED", js "veryfront.runtime_context")]

def NATIVE_CITATION_AND_FILE_STORED_TYPES : List JsText := [js "URL_CITED", js "DOCUMENT_CITED", js "FILE_ATTACHED"]

mutual

/-- `String(value)`. An object whose `toString` is data has no text, and the conversion throws. -/
def toStringOf : JsValue → Option JsText
  | .undefined => some (js "undefined")
  | .null => some (js "null")
  | .bool value => some (js (toString value))
  | .number text => some (js text)
  | .string text => some text
  | .array items => (itemTexts items).map fun texts => List.intercalate (js ",") texts
  | .object fields => if (fields.map Prod.fst).contains (js "toString") then none else some (js "[object Object]")

/-- The items of an array that is joined; a missing one is empty. -/
def itemTexts : List JsValue → Option (List JsText)
  | [] => some []
  | .undefined :: rest | .null :: rest => (itemTexts rest).map ([] :: ·)
  | item :: rest => (toStringOf item).bind fun text => (itemTexts rest).map (text :: ·)

end

structure NativeCustom where
  name : JsText
  value : JsValue

/-- `none` when it throws; no record when the type is not a native one. -/
def readNativeAsLegacyCustom (event : StoredEvent) : Option (Option NativeCustom) :=
  match (event.string? (js "type")).bind fun type => NATIVE_RUN_EVENTS.find? fun entry => entry.1 = type with
  | none => some none
  | some (storedType, legacyCustomName) =>
    let value := event.without DURABLE_ENVELOPE_KEYS
    if storedType = js "RUNTIME_EVENT_RECORDED" then
      if value.isString (js "runtime") (js "veryfront") && value.isString (js "kind") (js "runtime_context") then
        some (some ⟨legacyCustomName, value.get (js "value")⟩)
      else do
        let runtime ← toStringOf (value.get (js "runtime"))
        let kind ← toStringOf (value.get (js "kind"))
        some (some ⟨runtime ++ js "." ++ kind, value.get (js "value")⟩)
    else if storedType = js "INPUT_REQUEST_CREATED" ∨ storedType = js "INPUT_REQUEST_UPDATED" then
      let action := if storedType = js "INPUT_REQUEST_CREATED" then js "created" else js "updated"
      some (some ⟨legacyCustomName, .object (value.put (js "action") (.string action))⟩)
    else if NATIVE_CITATION_AND_FILE_STORED_TYPES.contains storedType then
      some (some ⟨legacyCustomName, .object (value.put (js "type") (.string legacyCustomName))⟩)
    else some (some ⟨legacyCustomName, .object value⟩)

/-! ## The reader -/

inductive ConversationRunLifecycleRepair
  | legacyTextContentAfterEnd | legacyMissingToolResult
deriving DecidableEq, Repr

structure LegacyReader where
  reducer : StreamReducerState
  frames : List StreamLifecycleFrame := []
  repairs : List ConversationRunLifecycleRepair := []
  closedTextIds : List JsText := []
  resultToolCallIds : List JsText := []

inductive StoredReading
  | events (events : List StreamProtocolEvent)
  | unknown

section
variable (json : JsonCodec)

def parseToolResultContent (content contentEncoding : JsValue) : JsValue :=
  match contentEncoding, content with
  | .string encoding, .string text => if encoding = js "text" then content else (json.parse text).getD content
  | _, .string text => (json.parse text).getD content
  | _, _ => content

namespace StoredEvent

def contentId (event : StoredEvent) : Option JsText := event.string? (js "contentId")

def toolCallId (event : StoredEvent) : JsText := (event.string? (js "toolCallId")).getD []

def toolName (event : StoredEvent) : JsText :=
  ((event.string? (js "toolName")).or (event.string? (js "toolCallName"))).getD (js "tool")

def delta (event : StoredEvent) : JsText := (event.string? (js "delta")).getD []

def isError (event : StoredEvent) : Bool := event.bool? (js "isError") = some true

end StoredEvent

def toolInputTextFor (tools : Tools) (toolCallId : JsText) : JsText :=
  ((tools.get? toolCallId).map StreamToolSnapshot.inputText).getD []

def toolNameFor (tools : Tools) (toolCallId : JsText) : Option JsText := (tools.get? toolCallId).map StreamToolSnapshot.name

def readToolCallEnd (tools : Tools) (recovered : Bool) (event : StoredEvent) : StreamProtocolEvent :=
  let id := event.toolCallId
  let name := (toolNameFor tools id).getD event.toolName
  let marker := event.bool? (js "providerExecuted")
  let storedOwnership := (tools.get? id).bind StreamToolSnapshot.providerExecuted
  let providerExecuted := decide (marker ≠ some false) && decide (storedOwnership ≠ some false) &&
    (recovered || decide (marker = some true) || decide (storedOwnership = some true))
  match parseToolInputText json (toolInputTextFor tools id) with
  | .ok value => .toolInputReady id name value (if providerExecuted then some true else none) none none
  | .error reason => .toolInputRejected id name reason

def readToolCallResult (tools : Tools) (event : StoredEvent) : List StreamProtocolEvent :=
  let id := event.toolCallId
  if ((tools.get? id).bind StreamToolSnapshot.providerExecuted) = some true then
    let name := (toolNameFor tools id).getD event.toolName
    [.providerToolStart id name,
      .providerToolResult id name (parseToolResultContent json (event.get (js "content")) (event.get (js "contentEncoding")))
        event.isError none none]
  else
    [.custom (js "legacy-tool-result") (.object
      [(js "toolCallId", .string id), (js "toolName", .string event.toolName), (js "content", event.get (js "content")),
        (js "isError", .bool event.isError)])]

/-- The reader's view of one event, from the tools of the reducer; `none` when it throws. -/
def readStoredEvent (recovered : Bool) (tools : Tools) (closedTextIds : List JsText) (event : StoredEvent) : Option StoredReading :=
  let id := event.toolCallId
  match storedType event with
  | .textMessageStart => some (.events [.textStart (nonEmpty event.contentId)])
  | .textMessageContent =>
    if (nonEmpty event.contentId).any fun contentId => closedTextIds.contains contentId then
      some (.events [.textContent none event.delta])
    else some (.events [.textContent (nonEmpty event.contentId) event.delta])
  | .textMessageEnd => some (.events [.textEnd (nonEmpty event.contentId)])
  | .reasoningMessageStart => some (.events [.reasoningStart (event.contentId.getD (js "reasoning"))])
  | .reasoningMessageContent => some (.events [.reasoningContent (event.contentId.getD (js "reasoning")) event.delta])
  | .reasoningMessageEnd => some (.events [.reasoningEnd (event.contentId.getD (js "reasoning")) none none])
  | .toolCallStart => some (.events [.toolInputStart id event.toolName (event.bool? (js "providerExecuted")) none false])
  | .toolCallArgs => some (.events [.toolInputContent id event.delta])
  | .toolCallEnd => some (.events [readToolCallEnd json tools recovered event])
  | .toolCallResult => some (.events (readToolCallResult json tools event))
  | .custom => some (.events [.custom ((event.string? (js "name")).getD (js "custom")) (event.get (js "value"))])
  | .other => (readNativeAsLegacyCustom event).map fun
    | some native => .events [.custom native.name native.value]
    | none => .unknown

def noteStoredEvent (reader : LegacyReader) (event : StoredEvent) : LegacyReader :=
  match storedType event, nonEmpty event.contentId with
  | .textMessageContent, some contentId =>
    if reader.closedTextIds.contains contentId then
      { reader with
        repairs := if reader.repairs.contains .legacyTextContentAfterEnd then reader.repairs
          else reader.repairs ++ [.legacyTextContentAfterEnd]
        closedTextIds := reader.closedTextIds.filter fun id => id ≠ contentId }
    else reader
  | .textMessageEnd, some contentId =>
    { reader with closedTextIds := if reader.closedTextIds.contains contentId then reader.closedTextIds
      else reader.closedTextIds ++ [contentId] }
  | .toolCallResult, _ =>
    { reader with resultToolCallIds := if reader.resultToolCallIds.contains event.toolCallId then reader.resultToolCallIds
      else reader.resultToolCallIds ++ [event.toolCallId] }
  | _, _ => reader

def storedCall (event : StreamProtocolEvent) : SignalCall := ⟨.protocol event, 0, false⟩

def reduceStored (reader : LegacyReader) (events : List StreamProtocolEvent) : Option LegacyReader := do
  let (reducer, frames) ← reduceSignals json reader.reducer (events.map storedCall)
  some { reader with reducer, frames := reader.frames ++ frames }

def rejectUnknown (reader : LegacyReader) : LegacyReader :=
  { reader with
    reducer := { reader.reducer with sequence := reader.reducer.sequence + 1 }
    frames := reader.frames ++ [⟨reader.reducer.sequence + 1, 0, .providerPartRejected⟩] }

def readEvent (consumed recoveredProviderEnds : List Nat) (reader : LegacyReader) (entry : StoredEvent × Nat) : Option LegacyReader :=
  if consumed.contains entry.2 then some reader
  else do
    let reading ← readStoredEvent json (recoveredProviderEnds.contains entry.2) reader.reducer.tools reader.closedTextIds entry.1
    let reader := noteStoredEvent reader entry.1
    match reading with
    | .events events => reduceStored json reader events
    | .unknown => some (rejectUnknown reader)

def missingResult : JsValue := .object [(js "error", .string (js "Stored tool call ended without a result"))]

/-- A call of the provider that never got its result is ended with an error. -/
def repairMissingResult (reader : LegacyReader) (entry : JsText × StreamToolSnapshot) : Option LegacyReader :=
  let (id, tool) := entry
  if tool.phase ≠ .inputReady ∨ tool.providerExecuted ≠ some true ∨ reader.resultToolCallIds.contains id then some reader
  else
    reduceStored json
      { reader with repairs := if reader.repairs.contains .legacyMissingToolResult then reader.repairs
        else reader.repairs ++ [.legacyMissingToolResult] }
      [.providerToolStart id tool.name, .providerToolResult id tool.name missingResult true none none]

structure ConversationRunLifecycleRead where
  frames : List StreamLifecycleFrame
  repairs : List ConversationRunLifecycleRepair

/-- `none` when it throws. -/
def readVersion1 (events : List StoredEvent) : Option ConversationRunLifecycleRead := do
  let corrections := resolveToolResultOwnershipCorrections events
  let recoveredProviderEnds := corrections.ends ++ resultOwnedEnds events
  let read ← events.zipIdx.foldlM (readEvent json corrections.consumed recoveredProviderEnds) { reducer := createInitialReducerState }
  let repaired ← read.reducer.tools.entries.foldlM (repairMissingResult json) read
  some ⟨repaired.frames ++ (finalizeStreamProjection 0 repaired.reducer).frames, repaired.repairs⟩

end

end Veryfront.Agent.Conversation
