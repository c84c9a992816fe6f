import Mathlib.Algebra.Group.Nat.Defs
import Veryfront.Agent.Conversation.AppendController

/-!
# The run mirror

The mirror decides when the queue is flushed: after a delay, at once when enough is pending, after a
backoff when an append failed, or because a caller asks for it. At most one loop flushes at a time.
A step of the model ends where the code awaits; a timer fires when no microtask is left.
-/

namespace Veryfront.Agent.Conversation

/-! ## The mirror -/

structure MirrorConfig where
  immediateFlushEventCount : Nat
  flushDelayMs : Nat
  getRetryDelayMs : Nat → Nat

def DEFAULT_FLUSH_DELAY_MS : Nat := 50

def DEFAULT_RETRY_BASE_DELAY_MS : Nat := 250

def DEFAULT_RETRY_MAX_DELAY_MS : Nat := 5000

def getDefaultRetryDelayMs (consecutiveFailures : Nat) : Nat :=
  min (DEFAULT_RETRY_BASE_DELAY_MS * 2 ^ (consecutiveFailures - 1)) DEFAULT_RETRY_MAX_DELAY_MS

inductive MirrorFlushed
  | idle
  | flushed
  | stopped
  | retryScheduled (retryCause : Option RetryCause)

/-- Where a loop is: its promise is settled, rejected or goes on, or it waits for the controller or a callback. -/
inductive LoopStage (ε ω : Type)
  | calling
  | flushing (queued : EventQueue ε ω)
  | answered (answer : MirrorFlushed)
  | notifyingStopped
  | notifyingRetry
  | rejected (error : String)
  | settled

structure FlushLoop (ε ω : Type) where
  id : Nat
  abortSignal : Option AbortSignalId
  stage : LoopStage ε ω

/-- A timer holds its delay. `flushLoops` counts the loops, for the id of the next one. -/
structure Mirror (ε ω : Type) where
  controller : QueueController ε ω
  flushTimer : Option Nat := none
  retryTimer : Option Nat := none
  retryDrains : Nat := 0
  inFlightFlush : Option (FlushLoop ε ω) := none
  flushLoops : Nat := 0
  escapedFlushFailures : Nat := 0
  escapedFlushError : Option String := none
  retryCause : Option RetryCause := none
  disposed : Bool := false

structure MirrorSnapshot where
  pendingEventCount : Nat
  consecutiveFailures : Nat
  disabled : Bool
  hasFlushTimer : Bool
  hasRetryTimer : Bool
  inFlight : Bool

namespace Mirror

variable {ε ω : Type}

def pendingEventCount (mirror : Mirror ε ω) : Nat := mirror.controller.pending.events.length

def getSnapshot (mirror : Mirror ε ω) : MirrorSnapshot where
  pendingEventCount := mirror.pendingEventCount
  consecutiveFailures := mirror.controller.consecutiveFailures
  disabled := mirror.controller.disabled
  hasFlushTimer := mirror.flushTimer.isSome
  hasRetryTimer := mirror.retryTimer.isSome
  inFlight := mirror.inFlightFlush.isSome

def mirrorHasPendingWork (snapshot : MirrorSnapshot) : Bool :=
  !snapshot.disabled && (snapshot.pendingEventCount ≠ 0 || snapshot.inFlight)

def clearFlushTimer (mirror : Mirror ε ω) : Mirror ε ω := { mirror with flushTimer := none }

def clearRetryTimer (mirror : Mirror ε ω) : Mirror ε ω := { mirror with retryTimer := none }

def shouldSkipScheduledFlush (config : MirrorConfig) (mirror : Mirror ε ω) (delayMs : Nat) : Bool :=
  if mirror.disposed || mirror.controller.disabled || mirror.pendingEventCount = 0 then true
  else if mirror.retryTimer.isSome && mirror.retryDrains > 0 then true
  else if delayMs = 0 then false
  else if mirror.inFlightFlush.isSome || mirror.flushTimer.isSome then true
  else mirror.retryTimer.isSome && delayMs ≥ config.getRetryDelayMs mirror.controller.consecutiveFailures

def shouldStartFlushLoop (mirror : Mirror ε ω) : Bool :=
  !mirror.disposed && !mirror.controller.disabled && mirror.inFlightFlush.isNone && mirror.pendingEventCount > 0 &&
    !(mirror.retryTimer.isSome && mirror.retryDrains > 0)

def shouldContinueFlushLoop (mirror : Mirror ε ω) : Bool :=
  !mirror.disposed && !mirror.controller.disabled && mirror.controller.consecutiveFailures = 0 && mirror.retryTimer.isNone &&
    mirror.pendingEventCount > 0

def scheduleRetry (config : MirrorConfig) (mirror : Mirror ε ω) : Mirror ε ω :=
  if mirror.disposed || mirror.controller.disabled || mirror.pendingEventCount = 0 then mirror
  else
    { mirror.clearRetryTimer with
      retryTimer := some (config.getRetryDelayMs (max mirror.controller.consecutiveFailures mirror.escapedFlushFailures)) }

def startFlushLoop (mirror : Mirror ε ω) (abortSignal : Option AbortSignalId) : Mirror ε ω :=
  if !mirror.shouldStartFlushLoop then mirror
  else
    { mirror with
      inFlightFlush := some { id := mirror.flushLoops, abortSignal, stage := .calling }
      flushLoops := mirror.flushLoops + 1 }

def scheduleFlush (config : MirrorConfig) (mirror : Mirror ε ω) (delayMs : Nat) : Mirror ε ω :=
  if mirror.shouldSkipScheduledFlush config delayMs then mirror
  else if delayMs = 0 then (mirror.clearFlushTimer.clearRetryTimer).startFlushLoop none
  else { mirror.clearRetryTimer with flushTimer := some delayMs }

def enqueueDelay (config : MirrorConfig) (mirror : Mirror ε ω) : Nat :=
  if mirror.pendingEventCount ≥ config.immediateFlushEventCount then 0 else config.flushDelayMs

/-- The events go to the controller before it is decided when they are flushed. -/
def hold (mirror : Mirror ε ω) (queue : EventQueue ε ω) : Mirror ε ω :=
  { mirror with controller := mirror.controller.enqueue queue }

def enqueue (config : MirrorConfig) (mirror : Mirror ε ω) (queue : EventQueue ε ω) : Mirror ε ω :=
  if mirror.disposed || mirror.controller.disabled || queue.events.length = 0 then mirror
  else (mirror.hold queue).scheduleFlush config ((mirror.hold queue).enqueueDelay config)

def dispose (mirror : Mirror ε ω) : Mirror ε ω :=
  if mirror.disposed then mirror
  else { ({ mirror with disposed := true } : Mirror ε ω).clearFlushTimer.clearRetryTimer with controller := mirror.controller.dispose }

/-! ## The flush loop -/

def flushedOf (controller : QueueController ε ω) (result : QueueFlushed ε ω) : MirrorFlushed :=
  if controller.disposed then .idle
  else match result with
    | .flushed _ => .flushed
    | .stopped .. => .stopped
    | .retryScheduled _ _ _ _ retryCause => .retryScheduled retryCause

def setStage (mirror : Mirror ε ω) (loop : FlushLoop ε ω) (stage : LoopStage ε ω) : Mirror ε ω :=
  { mirror with inFlightFlush := some { loop with stage } }

def takeQueue (aborted : List AbortSignalId) (mirror : Mirror ε ω) (loop : FlushLoop ε ω) : Mirror ε ω :=
  if isAborted aborted loop.abortSignal || (loop.abortSignal.isNone && mirror.disposed) then
    mirror.setStage loop (.rejected "aborted")
  else if mirror.controller.disabled || mirror.pendingEventCount = 0 then mirror.setStage loop (.answered .idle)
  else ({ mirror with controller := { mirror.controller with pending := {} } } : Mirror ε ω).setStage loop
    (.flushing mirror.controller.pending)

def readFlushed (mirror : Mirror ε ω) (loop : FlushLoop ε ω) (answer : MirrorFlushed) : Mirror ε ω :=
  let mirror := { mirror with escapedFlushFailures := 0, escapedFlushError := none }
  match answer with
  | .idle | .flushed => ({ mirror with retryCause := none } : Mirror ε ω).setStage loop .settled
  | .stopped => ({ mirror with retryCause := none } : Mirror ε ω).clearFlushTimer.clearRetryTimer.setStage loop .notifyingStopped
  | .retryScheduled retryCause => ({ mirror with retryCause } : Mirror ε ω).setStage loop .notifyingRetry

/-- The handler of a loop that was rejected. -/
def catchEscaped (config : MirrorConfig) (mirror : Mirror ε ω) (loop : FlushLoop ε ω) (error : String) : Mirror ε ω :=
  let mirror := { mirror with escapedFlushFailures := mirror.escapedFlushFailures + 1, escapedFlushError := some error }
  (if !mirror.disposed then mirror.scheduleRetry config else mirror).setStage loop .settled

def finishLoop (mirror : Mirror ε ω) (loop : FlushLoop ε ω) : Mirror ε ω :=
  let mirror := { mirror with inFlightFlush := none }
  if mirror.shouldContinueFlushLoop then mirror.startFlushLoop loop.abortSignal else mirror

end Mirror

/-! ## Flush calls -/

structure MirrorFlushOptions where
  abortSignal : Option AbortSignalId := none
  throwOnTimeoutRetry : Bool := false
  waitForRetries : Bool := false

/-- Where a flush call awaits: a loop, the end of its own drain, or a retry. -/
inductive FlushPoint
  | draining (loop : Nat)
  | drained
  | waitingRetry
deriving DecidableEq

structure FlushCall where
  options : MirrorFlushOptions
  point : FlushPoint

structure ResolvedFlush where
  snapshot : MirrorSnapshot
  disposed : Bool

/-- `calls` are the flush calls that have not ended, in no order. -/
structure MirrorWorld (ε ω : Type) where
  mirror : Mirror ε ω
  aborted : List AbortSignalId := []
  calls : List FlushCall := []
  resolved : List ResolvedFlush := []

namespace FlushCall

def isDraining (call : FlushCall) : Bool :=
  match call.point with
  | .draining _ => true
  | _ => false

def isDrained (call : FlushCall) : Bool := call.point = .drained

end FlushCall

namespace MirrorWorld

variable {ε ω : Type}

/-- The signal of the caller, or that of the mirror's own life. -/
def drainAborted (w : MirrorWorld ε ω) (options : MirrorFlushOptions) : Bool :=
  isAborted w.aborted options.abortSignal || w.mirror.disposed

def countDrain (mirror : Mirror ε ω) (options : MirrorFlushOptions) : Mirror ε ω :=
  if options.waitForRetries then { mirror with retryDrains := mirror.retryDrains + 1 } else mirror

def endDrain (mirror : Mirror ε ω) (options : MirrorFlushOptions) : Mirror ε ω :=
  if options.waitForRetries then { mirror with retryDrains := mirror.retryDrains - 1 } else mirror

def reject (w : MirrorWorld ε ω) (options : MirrorFlushOptions) : MirrorWorld ε ω :=
  { w with mirror := endDrain w.mirror options }

def resolve (w : MirrorWorld ε ω) (options : MirrorFlushOptions) : MirrorWorld ε ω :=
  { w with
    mirror := endDrain w.mirror options
    resolved := ⟨w.mirror.getSnapshot, w.mirror.disposed⟩ :: w.resolved }

def waitForDrain (w : MirrorWorld ε ω) (options : MirrorFlushOptions) : MirrorWorld ε ω :=
  match w.mirror.inFlightFlush with
  | some loop => { w with calls := ⟨options, .draining loop.id⟩ :: w.calls }
  | none => { w with calls := ⟨options, .drained⟩ :: w.calls }

def startAndDrain (w : MirrorWorld ε ω) (options : MirrorFlushOptions) : MirrorWorld ε ω :=
  if w.drainAborted options then w.reject options
  else ({ w with mirror := w.mirror.startFlushLoop options.abortSignal } : MirrorWorld ε ω).waitForDrain options

def clearForFlush (mirror : Mirror ε ω) (options : MirrorFlushOptions) : Mirror ε ω :=
  let mirror := (countDrain mirror options).clearFlushTimer
  if mirror.retryDrains = 0 then mirror.clearRetryTimer else mirror

def flush (w : MirrorWorld ε ω) (options : MirrorFlushOptions) : MirrorWorld ε ω :=
  if options.waitForRetries && options.abortSignal.isNone then w
  else
    let w := { w with mirror := clearForFlush w.mirror options }
    if w.mirror.disposed || !Mirror.mirrorHasPendingWork w.mirror.getSnapshot then w.resolve options
    else w.startAndDrain options

/-- A call whose loop is over starts another one when there is more to send and no retry to wait for. -/
def drainAgain (w : MirrorWorld ε ω) (options : MirrorFlushOptions) : MirrorWorld ε ω :=
  if w.drainAborted options then w.reject options
  else
    let mirror :=
      if !w.mirror.controller.disabled && w.mirror.pendingEventCount > 0 && w.mirror.retryTimer.isNone then
        w.mirror.startFlushLoop options.abortSignal
      else w.mirror
    ({ w with mirror } : MirrorWorld ε ω).waitForDrain options

def afterDrain (w : MirrorWorld ε ω) (options : MirrorFlushOptions) : MirrorWorld ε ω :=
  if w.mirror.escapedFlushError.isSome then w.reject options
  else if options.throwOnTimeoutRetry && w.mirror.retryCause = some .timeout then w.reject options
  else if !options.waitForRetries || w.mirror.controller.disabled || w.mirror.retryTimer.isNone then
    if w.drainAborted options then w.reject options else w.resolve options
  else if w.drainAborted options then w.reject options
  else { w with calls := ⟨options, .waitingRetry⟩ :: w.calls }

/-- Whether a flush call has something to do before the next timer. -/
def callHasMicrotask (w : MirrorWorld ε ω) (call : FlushCall) : Bool :=
  match call.point with
  | .draining loop => w.drainAborted call.options || w.mirror.inFlightFlush.all fun current => current.id ≠ loop
  | .drained => true
  | .waitingRetry => w.drainAborted call.options

def loopHasMicrotask (mirror : Mirror ε ω) : Bool :=
  mirror.inFlightFlush.any fun loop => match loop.stage with
    | .answered _ | .rejected _ | .settled => true
    | _ => false

def isQuiet (w : MirrorWorld ε ω) : Bool := !loopHasMicrotask w.mirror && w.calls.all fun call => !w.callHasMicrotask call

end MirrorWorld

/-! ## Steps -/

inductive MirrorAction (ε ω : Type)
  | enqueue (queue : EventQueue ε ω)
  | flush (options : MirrorFlushOptions)
  | abort (abortSignal : AbortSignalId)
  | dispose
  | fireFlushTimer
  | fireRetryTimer
  | takeQueue
  | settleFlush (result : QueueFlushed ε ω)
  | throwFlush (error : String)
  | rejectLoop (error : String)
  | callbackDone
  | continueLoop
  | continueFlush (call : Nat)

section
variable {ε ω : Type} (config : MirrorConfig)

/-- The loop in flight goes on; `none` when it cannot by this action. -/
def Mirror.loopStep (aborted : List AbortSignalId) (mirror : Mirror ε ω) (loop : FlushLoop ε ω) :
    MirrorAction ε ω → Option (Mirror ε ω)
  | .takeQueue =>
    match loop.stage with
    | .calling => some (mirror.takeQueue aborted loop)
    | _ => none
  | .settleFlush result =>
    match loop.stage with
    | .flushing _ =>
      if result.leavesWork then
        some (({ mirror with controller := mirror.controller.settleFlush result } : Mirror ε ω).setStage loop
          (.answered (flushedOf mirror.controller result)))
      else none
    | _ => none
  | .throwFlush error =>
    match loop.stage with
    | .flushing queued =>
      some (({ mirror with controller := mirror.controller.requeue queued } : Mirror ε ω).setStage loop (.rejected error))
    | _ => none
  | .rejectLoop error =>
    match loop.stage with
    | .calling | .answered _ | .notifyingStopped | .notifyingRetry => some (mirror.setStage loop (.rejected error))
    | _ => none
  | .callbackDone =>
    match loop.stage with
    | .notifyingStopped => some (mirror.setStage loop .settled)
    | .notifyingRetry => some ((mirror.scheduleRetry config).setStage loop .settled)
    | _ => none
  | .continueLoop =>
    match loop.stage with
    | .answered answer => some (mirror.readFlushed loop answer)
    | .rejected error => some (mirror.catchEscaped config loop error)
    | .settled => some (mirror.finishLoop loop)
    | _ => none
  | _ => none

namespace MirrorWorld

def continueFlush (w : MirrorWorld ε ω) (call : FlushCall) : Option (MirrorWorld ε ω) :=
  match call.point with
  | .draining loop =>
    if w.drainAborted call.options || w.mirror.inFlightFlush.all fun current => current.id ≠ loop then
      some (w.drainAgain call.options)
    else none
  | .drained => some (w.afterDrain call.options)
  | .waitingRetry => some (w.startAndDrain call.options)

/-- One step; `none` when it cannot be taken. -/
def step (w : MirrorWorld ε ω) (action : MirrorAction ε ω) : Option (MirrorWorld ε ω) :=
  match action with
  | .enqueue queue => some { w with mirror := w.mirror.enqueue config queue }
  | .flush options => some (w.flush options)
  | .abort abortSignal => some { w with aborted := abortSignal :: w.aborted }
  | .dispose => some { w with mirror := w.mirror.dispose }
  | .fireFlushTimer =>
    if w.isQuiet && w.mirror.flushTimer.isSome then some { w with mirror := w.mirror.clearFlushTimer.startFlushLoop none } else none
  | .fireRetryTimer =>
    if w.isQuiet && w.mirror.retryTimer.isSome then some { w with mirror := w.mirror.clearRetryTimer.startFlushLoop none } else none
  | .continueFlush index => do
    let call ← w.calls[index]?
    ({ w with calls := w.calls.eraseIdx index } : MirrorWorld ε ω).continueFlush call
  | action => do
    let loop ← w.mirror.inFlightFlush
    let mirror ← w.mirror.loopStep config w.aborted loop action
    some { w with mirror }

end MirrorWorld

end

end Veryfront.Agent.Conversation
