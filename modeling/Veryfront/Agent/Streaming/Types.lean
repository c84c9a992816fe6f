import Veryfront.Lib.OrdMap

/-!
# The lifecycle of a provider stream

What a provider sends is decoded into signals, and the reducer folds the signals into a snapshot
and a sequence of frames. Texts are lists of UTF-16 code units, the strings of the source: a delta
may end in the middle of a character.
-/

namespace Veryfront.Agent

abbrev JsText := List UInt16

def codeUnitsOf (c : Char) : JsText :=
  if c.toNat < 0x10000 then [c.toNat.toUInt16]
  else [(0xD800 + (c.toNat - 0x10000) / 0x400).toUInt16, (0xDC00 + (c.toNat - 0x10000) % 0x400).toUInt16]

/-- A literal of the source. -/
def js (s : String) : JsText := s.toList.flatMap codeUnitsOf

theorem js_ofList (characters : List Char) : js (String.ofList characters) = characters.flatMap codeUnitsOf := by
  rw [js, String.toList_ofList]

/-- A value of type `unknown`. A number is carried as the text it prints as. -/
inductive JsValue
  | undefined
  | null
  | bool (value : Bool)
  | number (text : String)
  | string (text : JsText)
  | array (items : List JsValue)
  | object (fields : List (JsText × JsValue))

namespace JsValue

def field (name : JsText) : JsValue → JsValue
  | .object fields => ((fields.find? fun f => f.1 = name).map Prod.snd).getD .undefined
  | _ => .undefined

/-- An object that is neither null nor an array. -/
def isRecord : JsValue → Bool
  | .object _ => true
  | _ => false

end JsValue

namespace Streaming

open Veryfront.Lib

inductive StreamLifecyclePhase
  | awaitingFirstProgress | streaming | awaitingToolInput | toolHandoff | completed | failed | cancelled
deriving DecidableEq, Repr

inductive FinishReason
  | stop | length | toolCalls | contentFilter | other
deriving DecidableEq, Repr

inductive RejectionReason
  | invalid | malformed | unavailable
deriving DecidableEq, Repr

/-- The counts that are always there, and the optional ones as they came. -/
structure StreamUsage where
  inputTokens : Int
  outputTokens : Int
  totalTokens : Int
  cachedInputTokens : Option Int := none
  tail : List (String × String) := []
deriving DecidableEq, Repr

inductive StreamProtocolEvent
  | messageStart (messageId : Option JsText)
  | stepStart
  | textStart (id : Option JsText)
  | textContent (id : Option JsText) (delta : JsText)
  | textEnd (id : Option JsText)
  | reasoningStart (id : JsText)
  | reasoningContent (id : JsText) (delta : JsText)
  | reasoningEnd (id : JsText) (signature : Option JsText) (redactedData : Option JsText)
  | toolInputStart (toolCallId toolName : JsText) (providerExecuted dynamic : Option Bool) (observedFromResult : Bool)
  | toolInputContent (toolCallId : JsText) (delta : JsText)
  | toolInputReady (toolCallId toolName : JsText) (input : JsValue) (providerExecuted dynamic : Option Bool)
      (announced : Option Bool)
  | toolInputRejected (toolCallId toolName : JsText) (reason : RejectionReason)
  | providerToolStart (toolCallId toolName : JsText)
  | providerToolResult (toolCallId toolName : JsText) (output : JsValue) (isError : Bool) (dynamic preliminary : Option Bool)
  | providerToolDenied (toolCallId toolName : JsText)
  | providerToolCancelled (toolCallId toolName : JsText)
  | stepFinish (finishReason : Option FinishReason) (providerMetadata : Option JsValue)
  | custom (name : JsText) (data : JsValue)

structure StreamProviderError where
  code : String
  publicMessage : String
  retryable : Bool
  terminal : Bool
deriving DecidableEq, Repr

inductive StreamSignal
  | protocol (event : StreamProtocolEvent)
  | usage (usage : StreamUsage)
  | providerError (error : StreamProviderError)
  | diagnosticCandidate (kind : String) (value : JsValue)

inductive ToolInputStatus
  | pendingInput | streamingInput
deriving DecidableEq, Repr

inductive RepairCode
  | implicitReasoningStart | implicitTextStart | implicitToolInputStart
deriving DecidableEq, Repr

/-- What a policy lets through of a raw diagnostic. -/
structure StreamSafeDiagnosticEvent where
  kind : String
  attributes : List (String × String)
deriving DecidableEq, Repr

/-- What a frame carries, by its class. Of the telemetry and the diagnostics only what the reducer
and the runner emit. -/
inductive FrameBody
  | semantic (event : StreamProtocolEvent)
  | semanticUsage (usage : StreamUsage)
  | toolInputStatus (toolCallId : JsText) (toolCallName : Option JsText) (status : ToolInputStatus)
  | protocolRepair (code : RepairCode)
  | protocolViolation
  | providerPartRejected
  | providerDiagnostic (event : StreamSafeDiagnosticEvent)

structure StreamLifecycleFrame where
  sequence : Nat
  elapsedMs : Int
  body : FrameBody

inductive ToolPhase
  | inputOpen | inputStreaming | inputReady | inputRejected | running | succeeded | failed | denied | cancelled
deriving DecidableEq, Repr

structure StreamToolSnapshot where
  id : JsText
  name : JsText
  phase : ToolPhase
  inputText : JsText
  inputDeltas : List JsText
  input : Option JsValue := none
  rejectionReason : Option RejectionReason := none
  output : Option JsValue := none
  error : Option JsValue := none
  preliminary : Option Bool := none
  providerExecuted : Option Bool := none
  dynamic : Bool := false

structure ReasoningPart where
  id : JsText
  text : JsText
  signature : Option JsText := none
  redactedData : Option JsText := none
deriving DecidableEq, Repr

structure StreamSnapshot where
  phase : StreamLifecyclePhase
  accumulatedText : JsText
  reasoning : List ReasoningPart
  tools : List StreamToolSnapshot
  finishReason : Option FinishReason
  providerMetadata : Option JsValue := none
  usage : StreamUsage
  hasStreamOutput : Bool
  hasSemanticProgress : Bool

inductive StreamErrorCode
  | firstProgressTimeout | semanticIdleTimeout | streamAttemptTimeout
  | toolInputTimeout | toolInputIncomplete | protocolViolation | providerStreamError | providerTerminalError
deriving DecidableEq, Repr

inductive StreamErrorSource
  | provider | runtime | tool
deriving DecidableEq, Repr

structure StreamLifecycleError where
  code : StreamErrorCode
  phase : StreamLifecyclePhase
  source : StreamErrorSource
  retryable : Bool
  publicMessage : String
deriving DecidableEq, Repr

/-- The text ids that the reducer gives out are numbered from 0. -/
def textId (index : Nat) : JsText := js "text:" ++ js (toString index)

structure StreamReducerState where
  snapshot : StreamSnapshot
  sequence : Nat
  activeTextId : Option JsText
  activeReasoningId : Option JsText
  nextTextIndex : Nat
  tools : OrdMap JsText StreamToolSnapshot
  terminal : Bool
  terminalError : Option StreamLifecycleError

def createInitialReducerState : StreamReducerState where
  snapshot :=
    { phase := .awaitingFirstProgress
      accumulatedText := []
      reasoning := []
      tools := []
      finishReason := none
      usage := ⟨0, 0, 0, none, []⟩
      hasStreamOutput := false
      hasSemanticProgress := false }
  sequence := 0
  activeTextId := none
  activeReasoningId := none
  nextTextIndex := 0
  tools := .empty
  terminal := false
  terminalError := none

end Streaming

end Veryfront.Agent
