import Veryfront.Lib.OrdMap

/-!
# The tool calls of a mirrored stream

The chunks of a stream are recorded as they are mirrored. After an abort the calls that are still open get a last
chunk, which says that the input never came or that the output did not. A call that ended before its input was
available counts as one without input, so it is ended once more.
-/

namespace Veryfront.Agent.Streaming

open Lib

/-! ## Chunks -/

inductive ChatUiMessageChunk
  | reasoningStart (id : String)
  | reasoningDelta (id : String) (delta : String)
  | reasoningEnd (id : String)
  | toolInputStart (toolCallId toolName : String)
  | toolInputDelta (toolCallId inputTextDelta : String)
  | toolInputAvailable (toolCallId toolName input : String)
  | toolInputError (toolCallId toolName input errorText : String)
  | toolOutputAvailable (toolCallId output : String) (preliminary : Bool)
  | toolOutputError (toolCallId errorText : String)
  | toolOutputDenied (toolCallId : String)
  | other
deriving DecidableEq

/-! ## The state -/

/-- Sets hold their elements in the order in which they were added. -/
structure MirroredToolChunkState where
  startedToolCallIds : List String := []
  inputAvailableToolCallIds : List String := []
  outputAvailableToolCallIds : List String := []
  outputErrorToolCallIds : List String := []
  outputDeniedToolCallIds : List String := []
  toolCallNames : OrdMap String String := .empty
  reasoningContentIds : List String := []
  openReasoningParts : OrdMap String String := .empty

def createMirroredToolChunkState : MirroredToolChunkState := {}

/-- `set.add(id)` -/
def addId (id : String) (ids : List String) : List String := if id ∈ ids then ids else ids ++ [id]

namespace MirroredToolChunkState

variable (state : MirroredToolChunkState)

def start (toolCallId : String) : MirroredToolChunkState :=
  { state with startedToolCallIds := addId toolCallId state.startedToolCallIds }

def nameToolCall (toolCallId toolName : String) : MirroredToolChunkState :=
  if toolName.length > 0 then { state with toolCallNames := state.toolCallNames.set toolCallId toolName } else state

end MirroredToolChunkState

def recordMirroredReasoningChunk (state : MirroredToolChunkState) (id : String)
    (change : OrdMap String String → OrdMap String String) : MirroredToolChunkState :=
  { state with
    reasoningContentIds := addId id state.reasoningContentIds
    openReasoningParts := change state.openReasoningParts }

def recordMirroredToolChunkState (state : MirroredToolChunkState) : ChatUiMessageChunk → MirroredToolChunkState
  | .reasoningStart id =>
    recordMirroredReasoningChunk state id fun parts => if parts.contains id then parts else parts.set id ""
  | .reasoningDelta id delta =>
    recordMirroredReasoningChunk state id fun parts =>
      match parts.get? id with
      | some text => parts.set id (text ++ delta)
      | none => parts
  | .reasoningEnd id => recordMirroredReasoningChunk state id fun parts => parts.erase id
  | .toolInputStart toolCallId toolName => (state.start toolCallId).nameToolCall toolCallId toolName
  | .toolInputAvailable toolCallId toolName _ =>
    { state.start toolCallId with
      inputAvailableToolCallIds := addId toolCallId state.inputAvailableToolCallIds }.nameToolCall toolCallId toolName
  | .toolInputError toolCallId toolName _ _ =>
    { state.start toolCallId with
      inputAvailableToolCallIds := addId toolCallId state.inputAvailableToolCallIds
      outputErrorToolCallIds := addId toolCallId state.outputErrorToolCallIds }.nameToolCall toolCallId toolName
  | .toolOutputAvailable toolCallId _ preliminary =>
    if preliminary then state
    else { state with outputAvailableToolCallIds := addId toolCallId state.outputAvailableToolCallIds }
  | .toolOutputError toolCallId _ =>
    { state with outputErrorToolCallIds := addId toolCallId state.outputErrorToolCallIds }
  | .toolOutputDenied toolCallId =>
    { state with outputDeniedToolCallIds := addId toolCallId state.outputDeniedToolCallIds }
  | .toolInputDelta _ _ | .other => state

def recordAll (state : MirroredToolChunkState) (chunks : List ChatUiMessageChunk) : MirroredToolChunkState :=
  chunks.foldl recordMirroredToolChunkState state

/-! ## Open tool calls -/

structure OpenToolCall where
  toolCallId : String
  toolName : String
deriving DecidableEq

structure OpenToolCalls where
  needsInputClose : List OpenToolCall
  needsOutputClose : List OpenToolCall
deriving DecidableEq

namespace MirroredToolChunkState

variable (state : MirroredToolChunkState)

def openToolCall (toolCallId : String) : OpenToolCall :=
  ⟨toolCallId, (state.toolCallNames.get? toolCallId).getD "unknown"⟩

def hasOutput (toolCallId : String) : Bool :=
  state.outputAvailableToolCallIds.contains toolCallId || state.outputErrorToolCallIds.contains toolCallId ||
    state.outputDeniedToolCallIds.contains toolCallId

end MirroredToolChunkState

def computeOpenToolCalls (state : MirroredToolChunkState) : OpenToolCalls where
  needsInputClose := (state.startedToolCallIds.filter fun toolCallId =>
    !state.inputAvailableToolCallIds.contains toolCallId).map state.openToolCall
  needsOutputClose := (state.startedToolCallIds.filter fun toolCallId =>
    state.inputAvailableToolCallIds.contains toolCallId && !state.hasOutput toolCallId).map state.openToolCall

inductive HostedMirroredWarning
  /-- "Closing open tool calls after stream abort" -/
  | closing (needsInputClose needsOutputClose : List String) (errorText : String)
  /-- "Closing aborted tool calls without recoverable tool names" -/
  | unknownToolNames (toolCallIds : List String) (errorText : String)
deriving DecidableEq

/-- The chunks that the caller's `appendChunk` gets, one after the other, and what is logged before. -/
structure ClosedToolCalls where
  warnings : List HostedMirroredWarning
  appended : List ChatUiMessageChunk
deriving DecidableEq

def closeInputChunk (errorText : String) (call : OpenToolCall) : ChatUiMessageChunk :=
  .toolInputError call.toolCallId call.toolName "{}" errorText

def closeOutputChunk (errorText : String) (call : OpenToolCall) : ChatUiMessageChunk :=
  .toolOutputError call.toolCallId errorText

def closeHostedMirroredOpenToolCalls (state : MirroredToolChunkState) (errorText : String) : ClosedToolCalls :=
  let openToolCalls := computeOpenToolCalls state
  if openToolCalls.needsInputClose.length = 0 ∧ openToolCalls.needsOutputClose.length = 0 then ⟨[], []⟩
  else
    let unknownToolNames := openToolCalls.needsInputClose.filter fun call => call.toolName = "unknown"
    { warnings :=
        .closing (openToolCalls.needsInputClose.map (·.toolCallId)) (openToolCalls.needsOutputClose.map (·.toolCallId))
          errorText ::
        if unknownToolNames.length > 0 then [.unknownToolNames (unknownToolNames.map (·.toolCallId)) errorText] else []
      appended := openToolCalls.needsInputClose.map (closeInputChunk errorText) ++
        openToolCalls.needsOutputClose.map (closeOutputChunk errorText) }

end Veryfront.Agent.Streaming
