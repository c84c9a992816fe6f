import Veryfront.Agent.Streaming.Reducer

/-!
# How a stream ended

One classifier turns a terminal snapshot, or what went wrong, into the outcome of the attempt. A
hand-off carries the local calls that are to be executed.
-/

namespace Veryfront.Agent.Streaming

open Veryfront.Lib

inductive StreamCancellationSource
  | user | parent | runtime | clientDisconnected | consumerStopped
deriving DecidableEq, Repr

structure StreamCommittedToolCall where
  id : JsText
  name : JsText
  arguments : JsText
  inputDeltas : List JsText
  dynamic : Bool
deriving DecidableEq

structure StreamFailure where
  error : StreamLifecycleError
  providerCode : Option String := none
deriving DecidableEq, Repr

inductive StreamOutcome
  | cancelled (source : StreamCancellationSource) (snapshot : StreamSnapshot) (elapsedMs : Int)
  | failed (failure : StreamFailure) (snapshot : StreamSnapshot) (elapsedMs : Int)
  | toolHandoff (toolCalls : List StreamCommittedToolCall) (snapshot : StreamSnapshot) (elapsedMs : Int)
  | completed (finishReason : FinishReason) (snapshot : StreamSnapshot) (elapsedMs : Int)

/-- What the classifier asks of a value that a stream threw. -/
structure ThrownStreamError where
  timeout : Bool
  classified : StreamProviderError

structure ResolveStreamOutcomeInput where
  snapshot : StreamSnapshot
  elapsedMs : Int
  cancellation : Option StreamCancellationSource := none
  lifecycleError : Option StreamLifecycleError := none
  thrownError : Option ThrownStreamError := none
  providerError : Option StreamProviderError := none

def isReadyLocal (tool : StreamToolSnapshot) : Bool := tool.phase = .inputReady && tool.providerExecuted ≠ some true

def collectCommittedLocalToolCalls (snapshot : StreamSnapshot) : List StreamCommittedToolCall :=
  (snapshot.tools.filter isReadyLocal).map fun tool =>
    { id := tool.id, name := tool.name, arguments := tool.inputText, inputDeltas := tool.inputDeltas, dynamic := tool.dynamic }

def failedClassifiedProviderOutcome (input : ResolveStreamOutcomeInput) (providerError : StreamProviderError) : StreamOutcome :=
  .failed
    { error :=
        { code := if providerError.terminal then .providerTerminalError else .providerStreamError
          phase := input.snapshot.phase
          source := .provider
          retryable := providerError.retryable
          publicMessage := providerError.publicMessage }
      providerCode := some providerError.code }
    { input.snapshot with phase := .failed } input.elapsedMs

def failedRuntimeOutcome (input : ResolveStreamOutcomeInput) (code : StreamErrorCode) (publicMessage : String) : StreamOutcome :=
  .failed { error := ⟨code, input.snapshot.phase, .runtime, code = .providerStreamError, publicMessage⟩ }
    { input.snapshot with phase := .failed } input.elapsedMs

def isLateError (input : ResolveStreamOutcomeInput) (thrown : ThrownStreamError) : Bool :=
  input.snapshot.hasStreamOutput && input.snapshot.finishReason.isSome && !thrown.timeout

def resolveSnapshot (input : ResolveStreamOutcomeInput) : StreamOutcome :=
  match input.snapshot.phase, input.snapshot.finishReason with
  | .toolHandoff, _ =>
    .toolHandoff (collectCommittedLocalToolCalls input.snapshot) { input.snapshot with phase := .toolHandoff } input.elapsedMs
  | .completed, some reason =>
    if reason = .toolCalls then failedRuntimeOutcome input .providerStreamError "Provider stream ended before completion"
    else .completed reason { input.snapshot with phase := .completed } input.elapsedMs
  | _, _ => failedRuntimeOutcome input .providerStreamError "Provider stream ended before completion"

def resolveStreamOutcome (input : ResolveStreamOutcomeInput) : StreamOutcome :=
  match input.cancellation, input.lifecycleError with
  | some source, _ => .cancelled source { input.snapshot with phase := .cancelled } input.elapsedMs
  | none, some error => .failed { error } { input.snapshot with phase := .failed } input.elapsedMs
  | none, none =>
    match input.thrownError, input.providerError with
    | some thrown, providerError =>
      if isLateError input thrown then resolveSnapshot input
      else failedClassifiedProviderOutcome input (providerError.getD thrown.classified)
    | none, some providerError => failedClassifiedProviderOutcome input providerError
    | none, none => resolveSnapshot input

/-! ## At the end of an attempt -/

def settleReducerTerminal (reducer : StreamReducerState) (elapsedMs : Int) : StreamOutcome :=
  resolveStreamOutcome { snapshot := reducer.snapshot, elapsedMs, lifecycleError := reducer.terminalError }

def settleLocalToolDeadline (resolution : LocalToolDeadlineResolution) (elapsedMs : Int) : StreamOutcome :=
  match resolution with
  | .handoff reduction => settleReducerTerminal reduction.state elapsedMs
  | .failed reduction code =>
    resolveStreamOutcome
      { snapshot := reduction.state.snapshot
        elapsedMs
        lifecycleError := some
          { code
            phase := reduction.state.snapshot.phase
            source := .tool
            retryable := false
            publicMessage :=
              if code = .toolInputTimeout then "Tool input did not arrive before the deadline"
              else "Tool input ended before a valid object was complete" } }

def LocalToolDeadlineResolution.reduction : LocalToolDeadlineResolution → StreamReduction
  | .handoff reduction => reduction
  | .failed reduction _ => reduction

def StreamOutcome.committedCalls : StreamOutcome → List StreamCommittedToolCall
  | .toolHandoff toolCalls _ _ => toolCalls
  | _ => []

def StreamOutcome.isToolHandoff : StreamOutcome → Bool
  | .toolHandoff .. => true
  | _ => false

end Veryfront.Agent.Streaming
