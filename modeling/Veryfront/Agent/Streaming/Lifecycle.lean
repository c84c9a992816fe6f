import Veryfront.Agent.Streaming.Deadlines

/-!
# A run of the stream lifecycle

The generator reads the provider, reduces what the parts decode to, and hands the frames to its
consumer. It is suspended while it races a read and at every frame that it yields, and meanwhile
the attempt's timer, a cancellation or the consumer may settle the outcome. Whatever of the
provider it calls runs on its stack, and may cancel as well. Observers, and the return of the
provider's iterator, are left out.
-/

namespace Veryfront.Agent.Streaming

open Veryfront.Lib

/-! ## Cancellation -/

structure StreamCancellationInput where
  source : StreamCancellationSource
  aborted : Bool := false

/-- What the inputs and the consumer have selected, and whether the provider's signal is aborted. -/
structure CancellationCoordinator where
  source : Option StreamCancellationSource := none
  listening : Bool := true
  aborted : Bool := false

def cancellationPrecedence : List StreamCancellationSource := [.user, .parent, .runtime, .clientDisconnected]

def preAborted (inputs : List StreamCancellationInput) : Option StreamCancellationSource :=
  cancellationPrecedence.find? fun candidate => inputs.any fun input => input.source = candidate && input.aborted

/-! ## The state -/

inductive ConsumerCall
  | nextCall | returnCall | throwCall
deriving DecidableEq, Repr

inductive AfterYield
  | status (toolCallIds : List JsText)
  | deadline (frames : List StreamLifecycleFrame)
  | diagnostic (signals : List StreamSignal)
  | reduction (frames : List StreamLifecycleFrame) (terminalCommitted : Bool) (signals : List StreamSignal)

/-- Where the generator stands: suspended, or in a call of the provider or the diagnostic policy. -/
inductive RunPoint (Part : Type)
  | unstarted
  | opening
  | reading
  | racing
  | raced (race : StreamReadRace Part)
  | decoding
  | accepting (signals : List StreamSignal)
  | classifying (error : Option ThrownStreamError)
  | yielded (rest : AfterYield)
  | ended

/-- The last six fields are no state of the source: what was handed out, what the reductions gave,
what the settling one had left, what came after it, and whether the generator called on or was
stopped. -/
structure StreamRun (Part : Type) where
  outcome : Option StreamOutcome := none
  reducer : StreamReducerState := createInitialReducerState
  inputs : List StreamCancellationInput := []
  cancellation : Option CancellationCoordinator := none
  attemptStartMs : Option Int := none
  attemptArmed : Bool := false
  deadlines : StreamDeadlineController := {}
  pendingRead : Option (TrackedProviderRead Part) := none
  point : RunPoint Part := .unstarted
  requests : List ConsumerCall := []
  handed : List StreamLifecycleFrame := []
  produced : List StreamLifecycleFrame := []
  owed : List StreamLifecycleFrame := []
  late : List StreamLifecycleFrame := []
  overran : Bool := false
  stopped : Bool := false

def StreamOutcome.snapshot : StreamOutcome → StreamSnapshot
  | .cancelled _ snapshot _ | .failed _ snapshot _ | .toolHandoff _ snapshot _ | .completed _ snapshot _ => snapshot

def StreamOutcome.succeeded : StreamOutcome → Bool
  | .cancelled .. | .failed .. => false
  | .toolHandoff .. | .completed .. => true

/-- Not on the stack of a call. -/
def RunPoint.suspended {Part : Type} : RunPoint Part → Bool
  | .racing | .raced _ | .yielded _ => true
  | _ => false

def terminateReducer (reducer : StreamReducerState) (phase : StreamLifecyclePhase) : StreamReducerState :=
  { reducer with terminal := true, snapshot := { reducer.snapshot with phase } }

def LocalToolDeadlineResolution.settledReducer (elapsedMs : Int) : LocalToolDeadlineResolution → StreamReducerState
  | .handoff reduction => reduction.state
  | .failed reduction code =>
    { reduction.state with
      terminal := true
      snapshot := (settleLocalToolDeadline (.failed reduction code) elapsedMs).snapshot }

namespace StreamRun

variable {Part : Type} (json : JsonCodec) (policy : StreamLifecyclePolicy) (now : Int) (run : StreamRun Part)

/-! ## Settling the outcome -/

def elapsedMs : Int := (run.attemptStartMs.map fun start => max 0 (now - start)).getD 0

/-- The first outcome stays. -/
def settle (outcome : StreamOutcome) : StreamRun Part := { run with outcome := run.outcome.or (some outcome) }

def settleCancelled (source : StreamCancellationSource) : StreamRun Part :=
  if run.outcome.isSome then run
  else
    { run.settle (resolveStreamOutcome
        { snapshot := run.reducer.snapshot, elapsedMs := run.elapsedMs now, cancellation := some source }) with
      reducer := terminateReducer run.reducer .cancelled }

def settleProviderFailure (thrownError : Option ThrownStreamError) (providerError : StreamProviderError) : StreamRun Part :=
  run.settle (resolveStreamOutcome
    { snapshot := run.reducer.snapshot, elapsedMs := run.elapsedMs now, thrownError, providerError := some providerError })

def settleFailed (error : StreamLifecycleError) : StreamRun Part :=
  let failed := resolveStreamOutcome
    { snapshot := run.reducer.snapshot, elapsedMs := run.elapsedMs now, lifecycleError := some error }
  { run.settle failed with reducer := { run.reducer with terminal := true, snapshot := failed.snapshot } }

def select (source : StreamCancellationSource) : StreamRun Part :=
  match run.cancellation with
  | none => run
  | some coordinator =>
    if coordinator.source.isSome then run
    else
      { run.settleCancelled now source with
        cancellation := some { source := some source, listening := false, aborted := true } }

def abortProvider : StreamRun Part :=
  { run with cancellation := run.cancellation.map fun coordinator => { coordinator with aborted := true } }

def settleAttemptTimeout : StreamRun Part :=
  if run.outcome.isSome then run
  else
    (run.settleFailed now
      ⟨.streamAttemptTimeout, run.reducer.snapshot.phase, .runtime, true, "Stream attempt exceeded its time limit"⟩).abortProvider

/-- The generator's `finally`. -/
def finish : StreamRun Part :=
  let run := run.settleCancelled now .consumerStopped
  { run with
    point := .ended
    attemptArmed := false
    deadlines := run.deadlines.dispose
    cancellation := run.cancellation.map fun coordinator => { coordinator with listening := false } }

/-! ## The generator -/

def hand (frame : StreamLifecycleFrame) (rest : AfterYield) : StreamRun Part :=
  { run with
    handed := run.handed ++ [frame]
    late := if run.outcome.isSome then run.late ++ [frame] else run.late
    requests := run.requests.tail
    point := .yielded rest }

/-- A frame of the runner's own takes the reducer's next number. -/
def sequenceFrame (body : FrameBody) : StreamLifecycleFrame × StreamRun Part :=
  let sequence := run.reducer.sequence + 1
  (⟨sequence, run.elapsedMs now, body⟩, { run with reducer := { run.reducer with sequence } })

def raceRead (read : TrackedProviderRead Part) : StreamRun Part :=
  match run.deadlines.raceProviderRead now read (run.cancellation.any fun coordinator => coordinator.aborted) with
  | some (race, deadlines) => { run with deadlines, point := .raced race }
  | none => { run with point := .racing }

def awaitRead (read : TrackedProviderRead Part) : StreamRun Part :=
  { run with
    pendingRead := some read
    deadlines := run.deadlines.resumeProviderWait policy now run.reducer.snapshot }.raceRead now read

/-- The head of the loop; without a read under way the provider is asked for one. -/
def readNext : StreamRun Part :=
  if run.outcome.isSome then run.finish now
  else match run.pendingRead with
    | none => { run with point := .reading, overran := run.overran || run.outcome.isSome }
    | some read => run.awaitRead policy now read

def reportStatus : List JsText → StreamRun Part
  | [] => run.readNext policy now
  | id :: ids =>
    if run.outcome.isSome then run.finish now
    else match run.reducer.snapshot.tools.find? fun tool => tool.id = id with
      | none => reportStatus ids
      | some tool =>
        if tool.phase ≠ .inputOpen ∧ tool.phase ≠ .inputStreaming then reportStatus ids
        else
          let (frame, run) := run.sequenceFrame now (.toolInputStatus id (some tool.name)
            (if tool.phase = .inputStreaming then .streamingInput else .pendingInput))
          run.hand frame (.status ids)

def settleReduction (frames : List StreamLifecycleFrame) (outcome : StreamOutcome) : StreamRun Part :=
  { run.settle outcome with owed := if run.outcome.isSome then run.owed else frames }

/-- The deadlines that hand off or fail the local tools, rather than the provider. -/
def resolvesTools (deadline : StreamProviderDeadlineKind) : Bool :=
  !policy.requireProviderFinish && (deadline = .toolInputIdle || deadline = .toolCommitGrace)

def handDeadline : List StreamLifecycleFrame → StreamRun Part
  | [] => run.abortProvider.finish now
  | frame :: frames => run.hand frame (.deadline frames)

def resolveTools : StreamRun Part :=
  let resolution := resolveLocalToolDeadline json (run.elapsedMs now) run.reducer
  let frames := resolution.reduction.frames
  { run.settleReduction frames (settleLocalToolDeadline resolution (run.elapsedMs now)) with
    reducer := resolution.settledReducer (run.elapsedMs now)
    produced := run.produced ++ frames }.handDeadline now frames

def providerDeadlineError (phase : StreamLifecyclePhase) : StreamProviderDeadlineKind → StreamLifecycleError
  | .toolInputIdle => ⟨.toolInputTimeout, phase, .provider, true, "Provider did not finish tool input before the deadline"⟩
  | .firstProgress => ⟨.firstProgressTimeout, phase, .provider, true, "Provider did not produce semantic progress"⟩
  | _ => ⟨.semanticIdleTimeout, phase, .provider, true, "Provider stopped producing semantic progress"⟩

def afterDeadline (deadline : StreamProviderDeadlineKind) : StreamRun Part :=
  if resolvesTools policy deadline then run.resolveTools json now
  else
    ((run.settleFailed now (providerDeadlineError run.reducer.snapshot.phase deadline)).abortProvider).finish now

def missingFinish : StreamProviderError where
  code := "PROVIDER_STREAM_ERROR"
  publicMessage :=
    if policy.streamRequiresFinish then "Provider stream ended before required finish"
    else "Provider stream ended before required tool continuation metadata"
  retryable := true
  terminal := false

def afterDone : StreamRun Part :=
  (if run.reducer.terminal then run.settle (settleReducerTerminal run.reducer (run.elapsedMs now))
  else if policy.streamRequiresFinish ∨
      (policy.requireProviderFinish ∧ (run.reducer.snapshot.tools.any isReadyLocal)) then
    run.settleProviderFailure now none (missingFinish policy)
  else
    run.settle (resolveStreamOutcome { snapshot := run.reducer.snapshot, elapsedMs := run.elapsedMs now })).finish now

def handReduction (frames : List StreamLifecycleFrame) (terminalCommitted : Bool) (signals : List StreamSignal)
    (next : StreamRun Part → StreamRun Part) : StreamRun Part :=
  match frames with
  | [] => if run.reducer.terminal then run.finish now else next run
  | frame :: frames =>
    if !terminalCommitted && run.outcome.isSome then run.finish now
    else run.hand frame (.reduction frames terminalCommitted signals)

def commitReduction (reduced : StreamReduction) : StreamRun Part :=
  let run := { run with
    reducer := reduced.state
    produced := run.produced ++ reduced.frames
    deadlines :=
      if reduced.semanticProgress then run.deadlines.noteSemanticProgress policy now reduced.state.snapshot
      else run.deadlines }
  if reduced.state.terminal then
    run.settleReduction reduced.frames (settleReducerTerminal reduced.state (run.elapsedMs now))
  else run

def reduceAll (run : StreamRun Part) : List StreamSignal → StreamRun Part
  | [] => run.readNext policy now
  | signal :: signals =>
    match signal with
    | .diagnosticCandidate .. => { run with point := .accepting signals }
    | .providerError error => (run.settleProviderFailure now none error).finish now
    | _ =>
      match reduceStreamSignal json (run.elapsedMs now) policy.requireProviderFinish run.reducer signal with
      | none => run.finish now
      | some reduced =>
        (run.commitReduction policy now reduced).handReduction now reduced.frames reduced.state.terminal signals
          fun run => reduceAll run signals

def begin : StreamRun Part :=
  let source := preAborted run.inputs
  let run := { run with
    attemptStartMs := some now
    attemptArmed := true
    deadlines := { attemptDeadlineMs := now + policy.attemptTimeoutMs }
    cancellation := some {} }
  match source with
  | some source => (run.select now source).finish now
  | none => { run with point := .opening }

def afterRace : StreamReadRace Part → StreamRun Part
  | .status ids => run.reportStatus policy now ids
  | .providerDeadline deadline => run.afterDeadline json policy now deadline
  | .attemptTimeout => (run.settleAttemptTimeout now).finish now
  | .cancelled => run.finish now
  | .readError error => { run with point := .classifying error }
  | .part .done => { run with pendingRead := none }.afterDone policy now
  | .part (.value _) => { run with pendingRead := none, point := .decoding, overran := run.overran || run.outcome.isSome }

/-- The generator goes on behind a frame that it yielded. -/
def afterYield : AfterYield → StreamRun Part
  | .status ids => if run.outcome.isSome then run.finish now else run.reportStatus policy now ids
  | .deadline frames => run.handDeadline now frames
  | .diagnostic signals => if run.outcome.isSome then run.finish now else run.reduceAll json policy now signals
  | .reduction frames terminalCommitted signals =>
    if !terminalCommitted && run.outcome.isSome then run.finish now
    else run.handReduction now frames terminalCommitted signals fun run => run.reduceAll json policy now signals

def afterAccept (signals : List StreamSignal) : Option StreamSafeDiagnosticEvent → StreamRun Part
  | none => run.reduceAll json policy now signals
  | some safe =>
    if run.outcome.isSome then run.finish now
    else
      let (frame, run) := run.sequenceFrame now (.providerDiagnostic safe)
      run.hand frame (.diagnostic signals)

/-- What is taken for an error when classifying it throws. -/
def unclassified : StreamProviderError := ⟨"PROVIDER_STREAM_ERROR", "Provider stream failed", true, false⟩

/-! ## The consumer -/

def ask (call : ConsumerCall) : StreamRun Part := { run with requests := run.requests ++ [call] }

/-- A return or a throw settles the outcome at once, wherever the generator stands. -/
def stop (call : ConsumerCall) : StreamRun Part :=
  let stopped := match run.point with
    | .ended => run.stopped
    | _ => true
  { ((run.settleCancelled now .consumerStopped).select now .consumerStopped).ask call with stopped }

/-- What the generator is resumed with decides where it goes on. -/
def resume : Option (StreamRun Part) :=
  match run.point, run.requests with
  | .unstarted, .nextCall :: _ => some (run.begin policy now)
  | .unstarted, _ :: _ => some { run with point := .ended }
  | .raced race, _ => some ({ run with deadlines := run.deadlines.pauseProviderWait now }.afterRace json policy now race)
  | .yielded rest, .nextCall :: _ => some (run.afterYield json policy now rest)
  | .yielded _, _ :: _ => some (run.finish now)
  | _, _ => none

end StreamRun

/-! ## Steps -/

/-- What may happen next: a call of the consumer, an abort of one of the inputs, the timer of the attempt, the end or a new
round of a read, the generator's turn, and the answers of what it calls. -/
inductive StreamEvent (Part : Type)
  | call (call : ConsumerCall)
  | abort (index : Nat)
  | attemptTimer
  | readSettles (settlement : ReadSettlement Part)
  | wake
  | resume
  | opened
  | openThrew (error : Option ThrownStreamError)
  | readStarted
  | readThrew (error : Option ThrownStreamError)
  | decoded (signals : List StreamSignal)
  | decodeThrew (error : Option ThrownStreamError)
  | accepted (safe : Option StreamSafeDiagnosticEvent)
  | classified (answer : Option StreamProviderError)

namespace StreamRun

variable {Part : Type} (json : JsonCodec) (policy : StreamLifecyclePolicy)

def abortInput (now : Int) (index : Nat) (run : StreamRun Part) : Option (StreamRun Part) :=
  match run.inputs[index]? with
  | none => none
  | some input =>
    if input.aborted then none
    else
      let run := { run with inputs := run.inputs.set index { input with aborted := true } }
      some (if run.cancellation.any (fun coordinator => coordinator.listening) then run.select now input.source else run)

/-- `none` where the event cannot happen. -/
def step (run : StreamRun Part) (now : Int) : StreamEvent Part → Option (StreamRun Part)
  | .call .nextCall => some (run.ask .nextCall)
  | .call call => some (run.stop now call)
  | .abort index => run.abortInput now index
  | .attemptTimer =>
    if run.attemptArmed && run.point.suspended then some ({ run with attemptArmed := false }.settleAttemptTimeout now)
    else none
  | .readSettles settlement =>
    match run.pendingRead with
    | some ⟨none⟩ => if run.point.suspended then some { run with pendingRead := some ⟨some (now, settlement)⟩ } else none
    | _ => none
  | .wake =>
    match run.point, run.pendingRead with
    | .racing, some read => some (run.raceRead now read)
    | _, _ => none
  | .resume => run.resume json policy now
  | .opened =>
    match run.point with
    | .opening => some (run.readNext policy now)
    | _ => none
  | .openThrew error =>
    match run.point with
    | .opening => some { run with point := .classifying error }
    | _ => none
  | .readStarted =>
    match run.point with
    | .reading => some (run.awaitRead policy now {})
    | _ => none
  | .readThrew error =>
    match run.point with
    | .reading => some { run with point := .classifying error }
    | _ => none
  | .decoded signals =>
    match run.point with
    | .decoding => some (run.reduceAll json policy now signals)
    | _ => none
  | .decodeThrew error =>
    match run.point with
    | .decoding => some { run with point := .classifying error }
    | _ => none
  | .accepted safe =>
    match run.point with
    | .accepting signals => some (run.afterAccept json policy now signals safe)
    | _ => none
  | .classified answer =>
    match run.point with
    | .classifying error => some ((run.settleProviderFailure now error (answer.getD unclassified)).finish now)
    | _ => none

/-- A whole run, every event with the time at which it happens. -/
def runEvents : StreamRun Part → List (Int × StreamEvent Part) → Option (StreamRun Part)
  | run, [] => some run
  | run, (now, event) :: events => (run.step json policy now event).bind fun run => runEvents run events

end StreamRun

end Veryfront.Agent.Streaming
