import Veryfront.Agent.Conversation.RunMirror
import Veryfront.Lib.Runs

/-!
# No event is left behind

As long as events are pending, a timer is armed, a loop is in flight, or a flush call will start one.
Two things can take the last of these away: a flush call that throws for its signal after it cleared
the timers, and a full batch that arrives when a loop has just scheduled its retry.
-/

namespace Veryfront.Agent.Conversation

variable {ε ω : Type}

/-! ## Who will send -/

namespace Mirror

def isLive (mirror : Mirror ε ω) : Bool := !mirror.disposed && !mirror.controller.disabled

/-- The end of a loop starts the next one unless an append failed. -/
def loopSends (mirror : Mirror ε ω) : Bool :=
  mirror.inFlightFlush.any fun loop => match loop.stage with
    | .settled => mirror.controller.consecutiveFailures = 0
    | _ => true

def willSend (mirror : Mirror ε ω) : Bool := mirror.flushTimer.isSome || mirror.retryTimer.isSome || mirror.loopSends

end Mirror

def MirrorWorld.willSend (w : MirrorWorld ε ω) : Bool := w.mirror.willSend || w.calls.any FlushCall.isDraining

/-! ## The steps that can strand events -/

def MirrorWorld.hangsOn (w : MirrorWorld ε ω) (others : List FlushCall) : Bool :=
  w.mirror.isLive && w.mirror.pendingEventCount > 0 && !w.mirror.loopSends && !others.any FlushCall.isDraining

/-- A flush call throws for its signal, with the timers cleared; or a full batch clears the retry of a loop that has not ended. -/
def strandsEvents (config : MirrorConfig) (w : MirrorWorld ε ω) : MirrorAction ε ω → Bool
  | .flush options =>
    isAborted w.aborted options.abortSignal && w.hangsOn w.calls &&
      !(w.mirror.retryTimer.isSome && (w.mirror.retryDrains > 0 || options.waitForRetries))
  | .continueFlush index =>
    w.calls[index]?.any fun call =>
      call.isDraining && isAborted w.aborted call.options.abortSignal && w.hangsOn (w.calls.eraseIdx index) &&
        w.mirror.flushTimer.isNone && w.mirror.retryTimer.isNone
  | .enqueue queue =>
    w.hangsOn w.calls && w.mirror.inFlightFlush.isSome && queue.events.length > 0 &&
      (w.mirror.hold queue).enqueueDelay config = 0 && !(w.mirror.retryTimer.isSome && w.mirror.retryDrains > 0)
  | _ => false

/-- Between the end of a flush call's drain and its return, an event arrives for which no retry is armed, or an armed retry is
cleared. -/
def interruptsReturn (config : MirrorConfig) (w : MirrorWorld ε ω) (action : MirrorAction ε ω) : Bool :=
  w.calls.any FlushCall.isDrained && w.mirror.isLive && match action with
    | .enqueue queue =>
      queue.events.length > 0 && !(w.mirror.retryTimer.isSome &&
        (w.mirror.hold queue).shouldSkipScheduledFlush config ((w.mirror.hold queue).enqueueDelay config))
    | .flush options => w.mirror.retryTimer.isSome && w.mirror.retryDrains = 0 && !options.waitForRetries
    | _ => false

/-! ## The invariant -/

def StageOk (mirror : Mirror ε ω) : LoopStage ε ω → Prop
  | .calling | .answered (.retryScheduled _) | .notifyingRetry => 0 < mirror.pendingEventCount
  | .flushing queued => 0 < queued.events.length
  | .answered .flushed => mirror.controller.consecutiveFailures = 0
  | .answered .idle | .answered .stopped | .notifyingStopped => False
  | .rejected _ | .settled => mirror.controller.consecutiveFailures = 0 ∨ 0 < mirror.pendingEventCount

structure MirrorBase (w : MirrorWorld ε ω) : Prop where
  stopped : w.mirror.controller.disposed = true → w.mirror.controller.disabled = true
  stage : ∀ loop, w.mirror.inFlightFlush = some loop → w.mirror.isLive = true → StageOk w.mirror loop.stage
  drained : w.mirror.isLive = true → w.calls.any FlushCall.isDrained = true →
    w.mirror.retryTimer.isSome = true ∨ w.mirror.pendingEventCount = 0 ∧ w.mirror.inFlightFlush = none
  resolved : ∀ flush ∈ w.resolved, flush.snapshot.pendingEventCount = 0 ∨ flush.snapshot.disabled = true ∨ flush.disposed = true ∨
    flush.snapshot.hasRetryTimer = true

structure MirrorInv (w : MirrorWorld ε ω) : Prop extends MirrorBase w where
  sends : w.mirror.isLive = true → 0 < w.mirror.pendingEventCount → w.willSend = true

variable {mirror : Mirror ε ω}

theorem isLive_iff : mirror.isLive = true ↔ mirror.disposed = false ∧ mirror.controller.disabled = false := by
  rw [Mirror.isLive, Bool.and_eq_true, Bool.not_eq_true', Bool.not_eq_true']

/-! ## Starting a loop -/

theorem startFlushLoop_cases (mirror : Mirror ε ω) (abortSignal : Option AbortSignalId) :
    (mirror.startFlushLoop abortSignal = mirror ∧ mirror.shouldStartFlushLoop = false) ∨
      (mirror.shouldStartFlushLoop = true ∧ mirror.startFlushLoop abortSignal =
        { mirror with
          inFlightFlush := some { id := mirror.flushLoops, abortSignal, stage := .calling }
          flushLoops := mirror.flushLoops + 1 }) := by
  unfold Mirror.startFlushLoop
  cases h : mirror.shouldStartFlushLoop with
  | true => exact .inr ⟨rfl, rfl⟩
  | false => exact .inl ⟨rfl, rfl⟩

theorem shouldStartFlushLoop_iff :
    mirror.shouldStartFlushLoop = true ↔ mirror.isLive = true ∧ mirror.inFlightFlush = none ∧ 0 < mirror.pendingEventCount ∧
      (mirror.retryTimer.isSome && decide (mirror.retryDrains > 0)) = false := by
  simp only [Mirror.shouldStartFlushLoop, Mirror.isLive, Bool.and_eq_true, Bool.not_eq_true', Option.isNone_iff_eq_none,
    decide_eq_true_eq, and_assoc]

theorem start_fields (mirror : Mirror ε ω) (abortSignal : Option AbortSignalId) :
    (mirror.startFlushLoop abortSignal).isLive = mirror.isLive ∧
      (mirror.startFlushLoop abortSignal).retryTimer = mirror.retryTimer ∧
      (mirror.startFlushLoop abortSignal).pendingEventCount = mirror.pendingEventCount := by
  rcases startFlushLoop_cases mirror abortSignal with ⟨heq, -⟩ | ⟨-, heq⟩ <;> rw [heq] <;> exact ⟨rfl, rfl, rfl⟩

theorem willSend_start (mirror : Mirror ε ω) (abortSignal : Option AbortSignalId)
    (hflight : mirror.inFlightFlush.isSome = true → mirror.willSend = true)
    (hlive : (mirror.startFlushLoop abortSignal).isLive = true) (hpending : 0 < (mirror.startFlushLoop abortSignal).pendingEventCount) :
    (mirror.startFlushLoop abortSignal).willSend = true := by
  obtain ⟨hlive', -, hpending'⟩ := start_fields mirror abortSignal
  rw [hlive'] at hlive
  rw [hpending'] at hpending
  rcases startFlushLoop_cases mirror abortSignal with ⟨heq, hnot⟩ | ⟨-, heq⟩
  · rw [heq]
    cases hloop : mirror.inFlightFlush with
    | some loop => exact hflight (by rw [hloop]; rfl)
    | none =>
      -- only a retry that a flush call waits for keeps the loop from starting
      have hretry : mirror.retryTimer.isSome = true := by
        cases hretry : mirror.retryTimer.isSome with
        | true => rfl
        | false =>
          have hstart := shouldStartFlushLoop_iff.mpr ⟨hlive, hloop, hpending, by rw [hretry]; rfl⟩
          rw [hstart] at hnot
          cases hnot
      rw [Mirror.willSend, hretry, Bool.or_true, Bool.true_or]
  · rw [heq]
    exact Bool.or_eq_true_iff.mpr (.inr rfl)

section
variable {w : MirrorWorld ε ω}

theorem base_start (h : MirrorBase w) (abortSignal : Option AbortSignalId) :
    MirrorBase { w with mirror := w.mirror.startFlushLoop abortSignal } := by
  rcases startFlushLoop_cases w.mirror abortSignal with ⟨heq, -⟩ | ⟨hstart, heq⟩
  · rw [heq]
    exact h
  · rw [heq]
    obtain ⟨-, -, hpending, -⟩ := shouldStartFlushLoop_iff.mp hstart
    refine ⟨h.stopped, fun loop hloop _ => ?_, fun hlive hdrained => ?_, h.resolved⟩
    · obtain rfl := Option.some.inj hloop
      exact hpending
    · exact (h.drained hlive hdrained).imp_right fun hnone => absurd hnone.1 (Nat.pos_iff_ne_zero.mp hpending)

theorem willSend_of_retry (h : w.mirror.retryTimer.isSome = true) : w.willSend = true := by
  rw [MirrorWorld.willSend, Mirror.willSend, h, Bool.or_true, Bool.true_or, Bool.true_or]

theorem willSend_of_flush (h : w.mirror.flushTimer.isSome = true) : w.willSend = true := by
  rw [MirrorWorld.willSend, Mirror.willSend, h, Bool.true_or, Bool.true_or, Bool.true_or]

theorem willSend_of_loop (h : w.mirror.loopSends = true) : w.willSend = true := by
  rw [MirrorWorld.willSend, Mirror.willSend, h, Bool.or_true, Bool.true_or]

theorem willSend_of_call (h : w.calls.any FlushCall.isDraining = true) : w.willSend = true := by
  rw [MirrorWorld.willSend, h, Bool.or_true]

theorem loopSends_of_empty (h : MirrorBase w) (hlive : w.mirror.isLive = true) (hflight : w.mirror.inFlightFlush.isSome = true)
    (hzero : w.mirror.pendingEventCount = 0) : w.mirror.loopSends = true := by
  obtain ⟨loop, hloop⟩ := Option.isSome_iff_exists.mp hflight
  have hstage := h.stage loop hloop hlive
  rw [Mirror.loopSends, hloop, Option.any_some]
  split
  · rename_i hsettled
    rw [hsettled] at hstage
    have hfailures : w.mirror.controller.consecutiveFailures = 0 ∨ 0 < w.mirror.pendingEventCount := hstage
    exact decide_eq_true (hfailures.resolve_right (by omega))
  · rfl

theorem willSend_inFlight (h : MirrorInv w) (hlive : w.mirror.isLive = true) (hflight : w.mirror.inFlightFlush.isSome = true) :
    w.willSend = true := by
  rcases Nat.eq_zero_or_pos w.mirror.pendingEventCount with hzero | hpending
  · exact willSend_of_loop (loopSends_of_empty h.toMirrorBase hlive hflight hzero)
  · exact h.sends hlive hpending

theorem not_hangsOn {others : List FlushCall} (h : w.hangsOn others = false) (hlive : w.mirror.isLive = true)
    (hpending : 0 < w.mirror.pendingEventCount) : w.mirror.loopSends = true ∨ others.any FlushCall.isDraining = true := by
  rw [MirrorWorld.hangsOn, hlive, decide_eq_true hpending, Bool.true_and, Bool.true_and, Bool.and_eq_false_iff,
    Bool.not_eq_false', Bool.not_eq_false'] at h
  exact h

/-! ## Enqueueing -/

theorem hold_eq (mirror : Mirror ε ω) (queue : EventQueue ε ω) :
    ∃ pending, mirror.hold queue = { mirror with controller := { mirror.controller with pending } } ∧
      mirror.pendingEventCount ≤ pending.events.length := by
  unfold Mirror.hold QueueController.enqueue Mirror.pendingEventCount
  split
  · exact ⟨_, rfl, Nat.le_refl _⟩
  · exact ⟨_, rfl, by rw [EventQueue.join, List.length_append]; exact Nat.le_add_right ..⟩

variable {stage : LoopStage ε ω}

theorem StageOk.grow (h : StageOk mirror stage) {pending : EventQueue ε ω}
    (hle : mirror.pendingEventCount ≤ pending.events.length) :
    StageOk { mirror with controller := { mirror.controller with pending } } stage := by
  cases stage with
  | calling | notifyingRetry => exact Nat.lt_of_lt_of_le h hle
  | flushing queued => exact h
  | answered answer =>
    cases answer with
    | idle | stopped | flushed => exact h
    | retryScheduled => exact Nat.lt_of_lt_of_le h hle
  | notifyingStopped => exact h
  | rejected | settled => exact Or.imp_right (fun hpending => Nat.lt_of_lt_of_le hpending hle) h

variable {config : MirrorConfig}

theorem skip_cases {delayMs : Nat}
    (hskip : mirror.shouldSkipScheduledFlush config delayMs = true) (hlive : mirror.isLive = true)
    (hpending : 0 < mirror.pendingEventCount) :
    mirror.retryTimer.isSome = true ∨ mirror.flushTimer.isSome = true ∨ mirror.inFlightFlush.isSome = true := by
  obtain ⟨hdisposed, hdisabled⟩ := isLive_iff.mp hlive
  have hwork : decide (mirror.pendingEventCount = 0) = false := decide_eq_false (Nat.pos_iff_ne_zero.mp hpending)
  rw [Mirror.shouldSkipScheduledFlush, hdisposed, hdisabled, hwork] at hskip
  simp only [Bool.or_self, Bool.false_eq_true, if_false] at hskip
  split at hskip
  · rename_i hdrains
    exact .inl (Bool.and_eq_true_iff.mp hdrains).1
  · split at hskip
    · cases hskip
    · split at hskip
      · rename_i hcovered
        exact .inr (Bool.or_eq_true_iff.mp hcovered).symm
      · exact .inl (Bool.and_eq_true_iff.mp hskip).1

theorem noSkip_drains {delayMs : Nat}
    (hskip : ¬ mirror.shouldSkipScheduledFlush config delayMs = true) :
    (mirror.retryTimer.isSome && decide (mirror.retryDrains > 0)) = false := by
  refine Bool.eq_false_iff.mpr fun hdrains => hskip ?_
  rw [Mirror.shouldSkipScheduledFlush, hdrains]
  split <;> rfl

theorem inv_enqueue {queue : EventQueue ε ω} (h : MirrorInv w)
    (hsafe : strandsEvents config w (.enqueue queue) = false) (hreturn : interruptsReturn config w (.enqueue queue) = false) :
    MirrorInv { w with mirror := w.mirror.enqueue config queue } := by
  unfold Mirror.enqueue
  split
  · exact h
  · rename_i hguard
    simp only [Bool.or_eq_true, decide_eq_true_eq, not_or, Bool.not_eq_true] at hguard
    obtain ⟨⟨hdisposed, hdisabled⟩, hne⟩ := hguard
    have hlive : w.mirror.isLive = true := isLive_iff.mpr ⟨hdisposed, hdisabled⟩
    have hevents : decide (queue.events.length > 0) = true := decide_eq_true (Nat.pos_iff_ne_zero.mpr hne)
    unfold interruptsReturn at hreturn
    unfold strandsEvents at hsafe
    dsimp only at hreturn hsafe
    rw [hlive, hevents, Bool.and_true, Bool.true_and] at hreturn
    rw [hevents, Bool.and_true] at hsafe
    generalize hdelay : (w.mirror.hold queue).enqueueDelay config = delay at hreturn hsafe ⊢
    obtain ⟨pending, hhold, hle⟩ := hold_eq w.mirror queue
    rw [hhold] at hreturn ⊢
    have hgrow : ∀ loop, w.mirror.inFlightFlush = some loop →
        StageOk { w.mirror with controller := { w.mirror.controller with pending } } loop.stage :=
      fun loop hloop => (h.stage loop hloop hlive).grow hle
    unfold Mirror.scheduleFlush
    split
    · rename_i hskip
      rw [hskip, Bool.and_true, Bool.and_eq_false_iff, Bool.not_eq_false'] at hreturn
      refine ⟨⟨h.stopped, fun loop hloop _ => hgrow loop hloop, fun _ hdrained => ?_, h.resolved⟩, fun hlive' hpending => ?_⟩
      · exact .inl (hreturn.resolve_left (by rw [show w.calls.any FlushCall.isDrained = true from hdrained]; exact nofun))
      · rcases skip_cases hskip hlive' hpending with hretry | hflush | hflight
        · exact willSend_of_retry hretry
        · exact willSend_of_flush hflush
        · have hwill : w.willSend = true := willSend_inFlight h hlive hflight
          exact hwill
    · rename_i hskip
      have hnone : w.calls.any FlushCall.isDrained = false := by
        rw [Bool.eq_false_iff.mpr hskip, Bool.and_false, Bool.not_false, Bool.and_true] at hreturn
        exact hreturn
      have hcleared : MirrorBase { w with mirror := { w.mirror with
          controller := { w.mirror.controller with pending }, flushTimer := none, retryTimer := none } } :=
        ⟨h.stopped, fun loop hloop _ => hgrow loop hloop, fun _ hdrained => absurd (hnone.symm.trans hdrained) nofun, h.resolved⟩
      split
      · rename_i hzero
        refine ⟨base_start hcleared none, fun hlive' hpending => ?_⟩
        cases hcalls : w.calls.any FlushCall.isDraining with
        | true => exact willSend_of_call hcalls
        | false =>
          have hheld := noSkip_drains hskip
          have hdrains : (w.mirror.retryTimer.isSome && decide (w.mirror.retryDrains > 0)) = false := hheld
          have hloops : w.mirror.inFlightFlush.isSome = true → w.mirror.loopSends = true := by
            intro hflight
            rcases Nat.eq_zero_or_pos w.mirror.pendingEventCount with hempty | hwork
            · exact loopSends_of_empty h.toMirrorBase hlive hflight hempty
            · rw [hflight, hzero, hdrains, Bool.and_true, Bool.not_false, Bool.and_true, decide_eq_true rfl, Bool.and_true] at hsafe
              exact (not_hangsOn hsafe hlive hwork).resolve_right (by rw [hcalls]; exact nofun)
          exact Bool.or_eq_true_iff.mpr (.inl (willSend_start _ none hloops hlive' hpending))
      · exact ⟨⟨h.stopped, fun loop hloop _ => hgrow loop hloop, fun _ hdrained => absurd (hnone.symm.trans hdrained) nofun,
          h.resolved⟩, fun _ _ => willSend_of_flush rfl⟩

/-! ## Flush calls -/

theorem inv_endDrain (h : MirrorInv w) (options : MirrorFlushOptions) :
    MirrorInv { w with mirror := MirrorWorld.endDrain w.mirror options } := by
  unfold MirrorWorld.endDrain
  split
  · exact ⟨⟨h.stopped, h.stage, h.drained, h.resolved⟩, h.sends⟩
  · exact h

theorem inv_resolve (h : MirrorInv w) (options : MirrorFlushOptions)
    (hdone : w.mirror.isLive = true → w.mirror.retryTimer.isSome = true ∨ w.mirror.pendingEventCount = 0) :
    MirrorInv (w.resolve options) := by
  have hresolved : ∀ flush ∈ (⟨w.mirror.getSnapshot, w.mirror.disposed⟩ : ResolvedFlush) :: w.resolved,
      flush.snapshot.pendingEventCount = 0 ∨ flush.snapshot.disabled = true ∨ flush.disposed = true ∨
        flush.snapshot.hasRetryTimer = true := by
    refine List.forall_mem_cons.mpr ⟨?_, h.resolved⟩
    cases hlive : w.mirror.isLive with
    | true => exact (hdone hlive).elim (fun hretry => .inr (.inr (.inr hretry))) .inl
    | false =>
      rw [Mirror.isLive, Bool.and_eq_false_iff, Bool.not_eq_false', Bool.not_eq_false'] at hlive
      exact hlive.elim (fun hdisposed => .inr (.inr (.inl hdisposed))) fun hdisabled => .inr (.inl hdisabled)
  have hlogged : MirrorInv { w with resolved := ⟨w.mirror.getSnapshot, w.mirror.disposed⟩ :: w.resolved } :=
    ⟨⟨h.stopped, h.stage, h.drained, hresolved⟩, h.sends⟩
  exact inv_endDrain hlogged options

theorem inv_waitForDrain (h : MirrorBase w) (options : MirrorFlushOptions)
    (hdone : w.mirror.isLive = true → w.mirror.inFlightFlush = none →
      w.mirror.retryTimer.isSome = true ∨ w.mirror.pendingEventCount = 0) : MirrorInv (w.waitForDrain options) := by
  unfold MirrorWorld.waitForDrain
  split
  · exact ⟨⟨h.stopped, h.stage, h.drained, h.resolved⟩, fun _ _ => willSend_of_call rfl⟩
  · rename_i hnone
    refine ⟨⟨h.stopped, h.stage, fun hlive _ => ?_, h.resolved⟩, fun hlive hpending => ?_⟩
    · exact (hdone hlive hnone).imp_right fun hzero => ⟨hzero, hnone⟩
    · exact willSend_of_retry ((hdone hlive hnone).resolve_right (Nat.pos_iff_ne_zero.mp hpending))

theorem start_none {abortSignal : Option AbortSignalId} (hlive : mirror.isLive = true)
    (hnone : (mirror.startFlushLoop abortSignal).inFlightFlush = none) :
    mirror.retryTimer.isSome = true ∨ mirror.pendingEventCount = 0 := by
  rcases startFlushLoop_cases mirror abortSignal with ⟨heq, hnot⟩ | ⟨-, heq⟩
  · rw [heq] at hnone
    rcases Nat.eq_zero_or_pos mirror.pendingEventCount with hzero | hpending
    · exact .inr hzero
    · refine .inl ?_
      cases hretry : mirror.retryTimer.isSome with
      | true => rfl
      | false =>
        have hstart := shouldStartFlushLoop_iff.mpr ⟨hlive, hnone, hpending, by rw [hretry]; rfl⟩
        rw [hstart] at hnot
        cases hnot
  · rw [heq] at hnone
    cases hnone

theorem inv_startAndDrain (h : MirrorBase w) (options : MirrorFlushOptions)
    (habort : isAborted w.aborted options.abortSignal = true → w.mirror.isLive = true → 0 < w.mirror.pendingEventCount →
      w.willSend = true) : MirrorInv (w.startAndDrain options) := by
  unfold MirrorWorld.startAndDrain
  split
  · rename_i haborted
    refine inv_endDrain ⟨h, fun hlive hpending => habort ?_ hlive hpending⟩ options
    rw [MirrorWorld.drainAborted, (isLive_iff.mp hlive).1, Bool.or_false] at haborted
    exact haborted
  · obtain ⟨hlive, hretry, hpending⟩ := start_fields w.mirror options.abortSignal
    refine inv_waitForDrain (base_start h options.abortSignal) options fun hlive' hnone => ?_
    rw [hretry, hpending]
    exact start_none (hlive.symm.trans hlive') hnone

theorem inv_drainAgain (h : MirrorBase w) (options : MirrorFlushOptions)
    (habort : isAborted w.aborted options.abortSignal = true → w.mirror.isLive = true → 0 < w.mirror.pendingEventCount →
      w.willSend = true) : MirrorInv (w.drainAgain options) := by
  unfold MirrorWorld.drainAgain
  split
  · rename_i haborted
    refine inv_endDrain ⟨h, fun hlive hpending => habort ?_ hlive hpending⟩ options
    rw [MirrorWorld.drainAborted, (isLive_iff.mp hlive).1, Bool.or_false] at haborted
    exact haborted
  · dsimp only
    split
    · obtain ⟨hlive, hretry, hpending⟩ := start_fields w.mirror options.abortSignal
      refine inv_waitForDrain (base_start h options.abortSignal) options fun hlive' hnone => ?_
      rw [hretry, hpending]
      exact start_none (hlive.symm.trans hlive') hnone
    · rename_i hmore
      refine inv_waitForDrain h options fun hlive _ => ?_
      rw [(isLive_iff.mp hlive).2, Bool.not_false, Bool.true_and, Bool.and_eq_true, decide_eq_true_eq, not_and_or,
        Option.isNone_iff_eq_none, Nat.not_lt, Nat.le_zero] at hmore
      exact hmore.symm.imp_left Option.isSome_iff_ne_none.mpr

def keepsRetry (mirror : Mirror ε ω) (options : MirrorFlushOptions) : Bool := mirror.retryDrains > 0 || options.waitForRetries

theorem clearForFlush_eq (mirror : Mirror ε ω) (options : MirrorFlushOptions) :
    ∃ retryDrains, MirrorWorld.clearForFlush mirror options =
      { mirror with
        flushTimer := none
        retryDrains
        retryTimer := if keepsRetry mirror options then mirror.retryTimer else none } := by
  unfold MirrorWorld.clearForFlush MirrorWorld.countDrain keepsRetry
  cases options.waitForRetries with
  | true => exact ⟨mirror.retryDrains + 1, by rw [Bool.or_true]; rfl⟩
  | false =>
    rw [Bool.or_false]
    refine ⟨mirror.retryDrains, ?_⟩
    simp only [Bool.false_eq_true, if_false]
    split
    · rename_i hdrains
      have hzero : decide (mirror.retryDrains > 0) = false := decide_eq_false (Nat.not_lt.mpr (Nat.le_of_eq hdrains))
      rw [hzero]
      rfl
    · rename_i hdrains
      have hpos : decide (mirror.retryDrains > 0) = true := decide_eq_true (Nat.pos_iff_ne_zero.mpr hdrains)
      rw [hpos]
      rfl

theorem inv_flush {options : MirrorFlushOptions} (h : MirrorInv w)
    (hsafe : strandsEvents config w (.flush options) = false) (hreturn : interruptsReturn config w (.flush options) = false) :
    MirrorInv (w.flush options) := by
  unfold MirrorWorld.flush
  split
  · exact h
  · dsimp only
    obtain ⟨retryDrains, hclear⟩ := clearForFlush_eq w.mirror options
    rw [hclear]
    have hbase : MirrorBase { w with mirror := { w.mirror with
        flushTimer := none, retryDrains, retryTimer := if keepsRetry w.mirror options then w.mirror.retryTimer else none } } := by
      refine ⟨h.stopped, h.stage, fun hlive hdrained => (h.drained hlive hdrained).imp_left fun hretry => ?_, h.resolved⟩
      have hlive' : w.mirror.isLive = true := hlive
      have hdrained' : w.calls.any FlushCall.isDrained = true := hdrained
      unfold interruptsReturn at hreturn
      dsimp only at hreturn
      rw [hlive', hdrained', hretry, Bool.true_and, Bool.true_and, Bool.true_and, Bool.and_eq_false_iff, decide_eq_false_iff_not,
        Bool.not_eq_false'] at hreturn
      have hkeeps : keepsRetry w.mirror options = true := by
        rw [keepsRetry, Bool.or_eq_true, decide_eq_true_eq]
        exact hreturn.imp_left Nat.pos_iff_ne_zero.mpr
      dsimp only
      rw [if_pos hkeeps]
      exact hretry
    generalize hkept : (if keepsRetry w.mirror options then w.mirror.retryTimer else none) = retryTimer at hbase ⊢
    split
    · rename_i hidle
      have hempty : w.mirror.isLive = true → w.mirror.pendingEventCount = 0 := by
        intro hlive
        obtain ⟨hdisposed, hdisabled⟩ := isLive_iff.mp hlive
        have hidle' : (w.mirror.disposed || !(!w.mirror.controller.disabled &&
            (decide (w.mirror.pendingEventCount ≠ 0) || w.mirror.inFlightFlush.isSome))) = true := hidle
        rw [hdisposed, hdisabled, Bool.false_or, Bool.not_false, Bool.true_and, Bool.not_eq_true', Bool.or_eq_false_iff,
          decide_eq_false_iff_not, not_ne_iff] at hidle'
        exact hidle'.1
      refine inv_resolve ⟨hbase, fun hlive hpending => ?_⟩ options fun hlive => .inr (hempty hlive)
      exact absurd (hempty hlive) (Nat.pos_iff_ne_zero.mp hpending)
    · refine inv_startAndDrain hbase options fun haborted hlive hpending => ?_
      have hlive' : w.mirror.isLive = true := hlive
      have hpending' : 0 < w.mirror.pendingEventCount := hpending
      have haborted' : isAborted w.aborted options.abortSignal = true := haborted
      unfold strandsEvents at hsafe
      dsimp only at hsafe
      rw [haborted', Bool.true_and, Bool.and_eq_false_iff, Bool.not_eq_false', Bool.and_eq_true] at hsafe
      rcases hsafe with hothers | ⟨hretry, hkeeps⟩
      · rcases not_hangsOn hothers hlive' hpending' with hloop | hcalls
        · exact willSend_of_loop hloop
        · exact willSend_of_call hcalls
      · refine willSend_of_retry ?_
        have hkeeps' : keepsRetry w.mirror options = true := hkeeps
        dsimp only
        rw [← hkept, if_pos hkeeps']
        exact hretry

theorem inv_continueFlush {index : Nat} {call : FlushCall} {w' : MirrorWorld ε ω} (h : MirrorInv w)
    (hcall : w.calls[index]? = some call) (hsafe : strandsEvents config w (.continueFlush index) = false)
    (hstep : MirrorWorld.continueFlush { w with calls := w.calls.eraseIdx index } call = some w') : MirrorInv w' := by
  have hbase : MirrorBase { w with calls := w.calls.eraseIdx index } := by
    refine ⟨h.stopped, h.stage, fun hlive hdrained => h.drained hlive ?_, h.resolved⟩
    obtain ⟨other, hother, hpoint⟩ := List.any_eq_true.mp hdrained
    exact List.any_eq_true.mpr ⟨other, List.mem_of_mem_eraseIdx hother, hpoint⟩
  have hsends : call.isDraining = false → MirrorInv { w with calls := w.calls.eraseIdx index } := by
    intro hnot
    refine ⟨hbase, fun hlive hpending => ?_⟩
    have hwill := h.sends hlive hpending
    rw [MirrorWorld.willSend, Bool.or_eq_true] at hwill
    rcases hwill with hwill | hwill
    · exact Bool.or_eq_true_iff.mpr (.inl hwill)
    · refine willSend_of_call ?_
      obtain ⟨other, hother, hpoint⟩ := List.any_eq_true.mp hwill
      obtain ⟨place, hplace⟩ := List.mem_iff_getElem?.mp hother
      have hne : place ≠ index := by
        rintro rfl
        obtain rfl := Option.some.inj (hcall.symm.trans hplace)
        rw [hnot] at hpoint
        cases hpoint
      exact List.any_eq_true.mpr ⟨other, List.mem_eraseIdx_iff_getElem?.mpr ⟨place, hne, hplace⟩, hpoint⟩
  unfold MirrorWorld.continueFlush at hstep
  split at hstep
  · rename_i loop hpoint
    split at hstep
    · obtain rfl := Option.some.inj hstep
      refine inv_drainAgain hbase call.options fun haborted hlive hpending => ?_
      have hlive' : w.mirror.isLive = true := hlive
      have hpending' : 0 < w.mirror.pendingEventCount := hpending
      have haborted' : isAborted w.aborted call.options.abortSignal = true := haborted
      have hdraining : call.isDraining = true := by rw [FlushCall.isDraining, hpoint]
      unfold strandsEvents at hsafe
      dsimp only at hsafe
      rw [hcall, Option.any_some, hdraining, haborted', Bool.true_and, Bool.true_and] at hsafe
      cases hflush : w.mirror.flushTimer.isSome with
      | true => exact willSend_of_flush hflush
      | false =>
        cases hretry : w.mirror.retryTimer.isSome with
        | true => exact willSend_of_retry hretry
        | false =>
          rw [Option.isSome_eq_false_iff] at hflush hretry
          rw [hflush, hretry, Bool.and_true, Bool.and_true] at hsafe
          rcases not_hangsOn hsafe hlive' hpending' with hloop | hcalls
          · exact willSend_of_loop hloop
          · exact willSend_of_call hcalls
    · cases hstep
  · rename_i hpoint
    obtain rfl := Option.some.inj hstep
    have hinv := hsends (by rw [FlushCall.isDraining, hpoint])
    have hdrained : w.calls.any FlushCall.isDrained = true :=
      List.any_eq_true.mpr ⟨call, List.mem_of_getElem? hcall, decide_eq_true hpoint⟩
    have hdone : w.mirror.isLive = true → w.mirror.retryTimer.isSome = true ∨ w.mirror.pendingEventCount = 0 :=
      fun hlive => (h.drained hlive hdrained).imp_right And.left
    unfold MirrorWorld.afterDrain
    split
    · exact inv_endDrain hinv _
    · split
      · exact inv_endDrain hinv _
      · split
        · split
          · exact inv_endDrain hinv _
          · exact inv_resolve hinv _ hdone
        · split
          · exact inv_endDrain hinv _
          · refine ⟨⟨hinv.stopped, hinv.stage, fun hlive hother => h.drained hlive hdrained, hinv.resolved⟩, hinv.sends⟩
  · rename_i hpoint
    obtain rfl := Option.some.inj hstep
    have hinv := hsends (by rw [FlushCall.isDraining, hpoint])
    exact inv_startAndDrain hbase call.options fun _ => hinv.sends

/-! ## Timers -/

theorem loopSends_of_quiet (hquiet : MirrorWorld.loopHasMicrotask w.mirror = false) (hflight : w.mirror.inFlightFlush.isSome = true) :
    w.mirror.loopSends = true := by
  obtain ⟨loop, hloop⟩ := Option.isSome_iff_exists.mp hflight
  rw [MirrorWorld.loopHasMicrotask, hloop, Option.any_some] at hquiet
  rw [Mirror.loopSends, hloop, Option.any_some]
  split
  · rename_i hsettled
    rw [hsettled] at hquiet
    cases hquiet
  · rfl

theorem quiet_not_drained (hquiet : w.isQuiet = true) : w.calls.any FlushCall.isDrained = false := by
  refine Bool.eq_false_iff.mpr fun hdrained => ?_
  obtain ⟨call, hcall, hpoint⟩ := List.any_eq_true.mp hdrained
  rw [MirrorWorld.isQuiet, Bool.and_eq_true, List.all_eq_true] at hquiet
  have hidle := hquiet.2 call hcall
  rw [MirrorWorld.callHasMicrotask, show call.point = .drained from of_decide_eq_true hpoint] at hidle
  cases hidle

theorem inv_fire (h : MirrorInv w) (hquiet : w.isQuiet = true)
    (hmirror : ∃ flushTimer retryTimer, mirror = { w.mirror with flushTimer, retryTimer }) :
    MirrorInv { w with mirror := mirror.startFlushLoop none } := by
  obtain ⟨flushTimer, retryTimer, rfl⟩ := hmirror
  have hnone := quiet_not_drained hquiet
  have hloops : w.mirror.inFlightFlush.isSome = true → w.mirror.loopSends = true := by
    rw [MirrorWorld.isQuiet, Bool.and_eq_true, Bool.not_eq_true'] at hquiet
    exact loopSends_of_quiet hquiet.1
  have hbase : MirrorBase { w with mirror := { w.mirror with flushTimer, retryTimer } } :=
    ⟨h.stopped, h.stage, fun _ hdrained => absurd (hnone.symm.trans hdrained) nofun, h.resolved⟩
  refine ⟨base_start hbase none, fun hlive hpending => Bool.or_eq_true_iff.mpr (.inl ?_)⟩
  refine willSend_start _ none (fun hflight => ?_) hlive hpending
  have hloop : w.mirror.loopSends = true := hloops hflight
  exact Bool.or_eq_true_iff.mpr (.inr hloop)

/-! ## The loop in flight -/

variable {loop : FlushLoop ε ω}

theorem inv_advance (h : MirrorInv w) (hloop : w.mirror.inFlightFlush = some loop)
    (hflight : mirror.inFlightFlush = some { loop with stage })
    (hstopped : mirror.controller.disposed = true → mirror.controller.disabled = true)
    (hlive : mirror.isLive = true → w.mirror.isLive = true)
    (hretry : mirror.isLive = true → w.mirror.retryTimer.isSome = true → mirror.retryTimer.isSome = true)
    (hstage : mirror.isLive = true → StageOk mirror stage)
    (hsettled : mirror.isLive = true → stage = .settled → mirror.willSend = true ∨ mirror.pendingEventCount = 0) :
    MirrorInv { w with mirror } := by
  refine ⟨⟨hstopped, fun current hcurrent hlive' => ?_, fun hlive' hdrained => ?_, h.resolved⟩, fun hlive' hpending => ?_⟩
  · obtain rfl := Option.some.inj (hflight.symm.trans hcurrent)
    exact hstage hlive'
  · rcases h.drained (hlive hlive') hdrained with hsome | ⟨-, hnone⟩
    · exact .inl (hretry hlive' hsome)
    · rw [hloop] at hnone
      cases hnone
  · by_cases hdone : stage = .settled
    · exact Bool.or_eq_true_iff.mpr (.inl ((hsettled hlive' hdone).resolve_right (Nat.pos_iff_ne_zero.mp hpending)))
    · refine willSend_of_loop ?_
      show mirror.inFlightFlush.any _ = true
      rw [hflight, Option.any_some]
      dsimp only
      split
      · exact absurd rfl hdone
      · rfl

theorem StageOk.reject (h : StageOk mirror stage)
    (hnot : ∀ queued, stage ≠ .flushing queued) : mirror.controller.consecutiveFailures = 0 ∨ 0 < mirror.pendingEventCount := by
  cases stage with
  | calling | notifyingRetry => exact .inr h
  | flushing queued => exact absurd rfl (hnot queued)
  | answered answer =>
    cases answer with
    | idle | stopped => exact h.elim
    | flushed => exact .inl h
    | retryScheduled => exact .inr h
  | notifyingStopped => exact h.elim
  | rejected | settled => exact h

theorem not_live_of_disabled (h : mirror.controller.disabled = true) : ¬ mirror.isLive = true := by
  intro hlive
  rw [(isLive_iff.mp hlive).2] at h
  cases h

theorem scheduleRetry_eq (config : MirrorConfig) (mirror : Mirror ε ω) :
    ∃ retryTimer, mirror.scheduleRetry config = { mirror with retryTimer } ∧
      (mirror.retryTimer.isSome = true → retryTimer.isSome = true) ∧
      (mirror.isLive = true → 0 < mirror.pendingEventCount → retryTimer.isSome = true) := by
  unfold Mirror.scheduleRetry
  split
  · rename_i hguard
    refine ⟨mirror.retryTimer, rfl, id, fun hlive hpending => ?_⟩
    obtain ⟨hdisposed, hdisabled⟩ := isLive_iff.mp hlive
    rw [hdisposed, hdisabled, Bool.false_or, Bool.false_or, decide_eq_true_eq] at hguard
    exact absurd hguard (Nat.pos_iff_ne_zero.mp hpending)
  · exact ⟨_, rfl, fun _ => rfl, fun _ _ => rfl⟩

theorem pending_requeue {queued : EventQueue ε ω} (hqueued : 0 < queued.events.length)
    (hdisposed : mirror.controller.disposed = false) : 0 < (mirror.controller.requeue queued).pending.events.length := by
  rw [QueueController.requeue, if_neg (by rw [hdisposed]; exact nofun)]
  show 0 < (queued.events ++ _).length
  rw [List.length_append]
  omega

theorem inv_takeQueue (h : MirrorInv w) (hloop : w.mirror.inFlightFlush = some loop)
    (hcalling : loop.stage = .calling) (aborted : List AbortSignalId) :
    MirrorInv { w with mirror := w.mirror.takeQueue aborted loop } := by
  have hpending : w.mirror.isLive = true → 0 < w.mirror.pendingEventCount := by
    intro hlive
    have hstage := h.stage loop hloop hlive
    rw [hcalling] at hstage
    exact hstage
  unfold Mirror.takeQueue
  split
  · exact inv_advance h hloop rfl h.stopped id (fun _ => id) (fun hlive => .inr (hpending hlive)) fun _ => nofun
  · split
    · rename_i hidle
      refine inv_advance h hloop rfl h.stopped id (fun _ => id) (fun hlive => ?_) fun _ => nofun
      have hlive' : w.mirror.isLive = true := hlive
      rw [(isLive_iff.mp hlive').2, Bool.false_or, decide_eq_true_eq] at hidle
      exact absurd hidle (Nat.pos_iff_ne_zero.mp (hpending hlive'))
    · exact inv_advance h hloop rfl h.stopped id (fun _ => id) (fun hlive => hpending hlive) fun _ => nofun

theorem inv_settleFlush (h : MirrorInv w) (hloop : w.mirror.inFlightFlush = some loop)
    {result : QueueFlushed ε ω} (hwork : result.leavesWork = true) :
    MirrorInv { w with
      mirror := ({ w.mirror with controller := w.mirror.controller.settleFlush result } : Mirror ε ω).setStage loop
        (.answered (Mirror.flushedOf w.mirror.controller result)) } := by
  unfold QueueController.settleFlush Mirror.flushedOf
  split
  · rename_i hdisposed
    refine inv_advance h hloop rfl h.stopped id (fun _ => id) (fun hlive => ?_) fun _ => nofun
    exact absurd hlive (not_live_of_disabled (h.stopped hdisposed))
  · cases result with
    | flushed cursors => exact inv_advance h hloop rfl h.stopped id (fun _ => id) (fun _ => rfl) fun _ => nofun
    | stopped cursors reason =>
      have hdead : ∀ {mirror : Mirror ε ω}, mirror.controller.disabled = true → ¬ mirror.isLive = true := not_live_of_disabled
      refine inv_advance h hloop rfl (fun _ => rfl) (fun hlive => absurd hlive (hdead rfl)) (fun hlive => absurd hlive (hdead rfl))
        (fun hlive => absurd hlive (hdead rfl)) fun _ => nofun
    | retryScheduled cursors pending failures message cause =>
      rw [QueueFlushed.leavesWork, Bool.and_eq_true, decide_eq_true_eq] at hwork
      refine inv_advance h hloop rfl h.stopped id (fun _ => id) (fun _ => ?_) fun _ => nofun
      show 0 < (pending.events ++ _).length
      rw [List.length_append]
      omega

theorem inv_throwFlush (h : MirrorInv w) (hloop : w.mirror.inFlightFlush = some loop) {queued : EventQueue ε ω}
    (hflushing : loop.stage = .flushing queued) (error : String) :
    MirrorInv { w with
      mirror := ({ w.mirror with controller := w.mirror.controller.requeue queued } : Mirror ε ω).setStage loop (.rejected error) } := by
  have hfields : (w.mirror.controller.requeue queued).disposed = w.mirror.controller.disposed ∧
      (w.mirror.controller.requeue queued).disabled = w.mirror.controller.disabled := by
    unfold QueueController.requeue
    split <;> exact ⟨rfl, rfl⟩
  refine inv_advance h hloop rfl ?_ (fun hlive => ?_) (fun _ => id) (fun hlive => .inr ?_) fun _ => nofun
  · intro hdisposed
    exact hfields.2.trans (h.stopped (hfields.1.symm.trans hdisposed))
  · obtain ⟨hdisposed, hdisabled⟩ := isLive_iff.mp hlive
    exact isLive_iff.mpr ⟨hdisposed, hfields.2.symm.trans hdisabled⟩
  · obtain ⟨hdisposed, hdisabled⟩ := isLive_iff.mp hlive
    have hlive' : w.mirror.isLive = true := isLive_iff.mpr ⟨hdisposed, hfields.2.symm.trans hdisabled⟩
    have hstage := h.stage loop hloop hlive'
    rw [hflushing] at hstage
    refine pending_requeue hstage (Bool.eq_false_iff.mpr fun hclosed => not_live_of_disabled (h.stopped hclosed) hlive')

theorem inv_readFlushed (h : MirrorInv w) (hloop : w.mirror.inFlightFlush = some loop) {answer : MirrorFlushed}
    (hanswered : loop.stage = .answered answer) : MirrorInv { w with mirror := w.mirror.readFlushed loop answer } := by
  have hstage : w.mirror.isLive = true → StageOk w.mirror (.answered answer) := fun hlive => hanswered ▸ h.stage loop hloop hlive
  unfold Mirror.readFlushed
  cases answer with
  | idle => exact inv_advance h hloop rfl h.stopped id (fun _ => id) (fun hlive => (hstage hlive).elim) fun hlive _ => (hstage hlive).elim
  | flushed =>
    refine inv_advance h hloop rfl h.stopped id (fun _ => id) (fun hlive => .inl (hstage hlive)) fun hlive _ => .inl ?_
    refine Bool.or_eq_true_iff.mpr (.inr ?_)
    exact decide_eq_true (hstage hlive)
  | stopped =>
    exact inv_advance h hloop rfl h.stopped id (fun hlive => (hstage hlive).elim) (fun hlive => (hstage hlive).elim) fun _ => nofun
  | retryScheduled cause => exact inv_advance h hloop rfl h.stopped id (fun _ => id) (fun hlive => hstage hlive) fun _ => nofun

theorem inv_retry (config : MirrorConfig) (h : MirrorInv w) (hloop : w.mirror.inFlightFlush = some loop)
    (hcontroller : mirror.controller = w.mirror.controller) (hdisposed : mirror.disposed = w.mirror.disposed)
    (htimer : mirror.retryTimer = w.mirror.retryTimer)
    (hstage : w.mirror.isLive = true → w.mirror.controller.consecutiveFailures = 0 ∨ 0 < w.mirror.pendingEventCount) :
    MirrorInv { w with mirror := (mirror.scheduleRetry config).setStage loop .settled } := by
  have hlive : mirror.isLive = true → w.mirror.isLive = true := by
    rw [Mirror.isLive, hcontroller, hdisposed]
    exact id
  have hpending : mirror.pendingEventCount = w.mirror.pendingEventCount := by rw [Mirror.pendingEventCount, hcontroller]; rfl
  obtain ⟨retryTimer, hretry, hkept, harmed⟩ := scheduleRetry_eq config mirror
  rw [hretry]
  refine inv_advance h hloop rfl ?_ hlive (fun _ hsome => hkept (by rw [htimer]; exact hsome)) (fun hlive' => ?_) fun hlive' _ => ?_
  · intro hclosed
    show mirror.controller.disabled = true
    have hclosed' : mirror.controller.disposed = true := hclosed
    rw [hcontroller] at hclosed' ⊢
    exact h.stopped hclosed'
  · show mirror.controller.consecutiveFailures = 0 ∨ 0 < mirror.pendingEventCount
    rw [hcontroller, hpending]
    exact hstage (hlive hlive')
  · rcases Nat.eq_zero_or_pos mirror.pendingEventCount with hzero | hwork
    · exact .inr hzero
    · refine .inl ?_
      have hsome : retryTimer.isSome = true := harmed hlive' hwork
      rw [Mirror.willSend]
      show (_ || retryTimer.isSome || _) = true
      rw [hsome, Bool.or_true, Bool.true_or]

theorem inv_finishLoop (h : MirrorInv w) (hloop : w.mirror.inFlightFlush = some loop)
    (hsettled : loop.stage = .settled) : MirrorInv { w with mirror := w.mirror.finishLoop loop } := by
  have hbase : MirrorBase { w with mirror := { w.mirror with inFlightFlush := none } } := by
    refine ⟨h.stopped, nofun, fun hlive hdrained => ?_, h.resolved⟩
    exact (h.drained hlive hdrained).imp_right fun hnone => ⟨hnone.1, rfl⟩
  unfold Mirror.finishLoop
  dsimp only
  split
  · refine ⟨base_start hbase _, fun hlive hpending => Bool.or_eq_true_iff.mpr (.inl ?_)⟩
    exact willSend_start _ _ nofun hlive hpending
  · rename_i hstop
    refine ⟨hbase, fun hlive hpending => ?_⟩
    obtain ⟨hdisposed, hdisabled⟩ := isLive_iff.mp hlive
    cases hretry : w.mirror.retryTimer with
    | some delay => exact willSend_of_retry rfl
    | none =>
      -- an append failed, so what sends is not this loop
      have hfailed : decide (w.mirror.controller.consecutiveFailures = 0) = false := by
        refine Bool.eq_false_iff.mpr fun hnone => hstop ?_
        have hwork : decide (w.mirror.pendingEventCount > 0) = true := decide_eq_true hpending
        show (!w.mirror.disposed && !w.mirror.controller.disabled && decide (w.mirror.controller.consecutiveFailures = 0) &&
          w.mirror.retryTimer.isNone && decide (w.mirror.pendingEventCount > 0)) = true
        rw [show w.mirror.disposed = false from hdisposed, show w.mirror.controller.disabled = false from hdisabled, hnone, hretry, hwork]
        rfl
      have hwill := h.sends hlive hpending
      have hloops : w.mirror.loopSends = false := by
        rw [Mirror.loopSends, hloop, Option.any_some, hsettled]
        exact hfailed
      rw [MirrorWorld.willSend, Mirror.willSend, hloops, hretry] at hwill
      exact hwill

theorem inv_loopStep {action : MirrorAction ε ω} (h : MirrorInv w)
    (hloop : w.mirror.inFlightFlush = some loop) (hstep : w.mirror.loopStep config w.aborted loop action = some mirror) :
    MirrorInv { w with mirror } := by
  have hstage := h.stage loop hloop
  cases action with
  | takeQueue =>
    unfold Mirror.loopStep at hstep
    dsimp only at hstep
    split at hstep
    · rename_i hcalling
      obtain rfl := Option.some.inj hstep
      exact inv_takeQueue h hloop hcalling w.aborted
    · cases hstep
  | settleFlush result =>
    unfold Mirror.loopStep at hstep
    dsimp only at hstep
    split at hstep
    · split at hstep
      · rename_i hwork
        obtain rfl := Option.some.inj hstep
        exact inv_settleFlush h hloop hwork
      · cases hstep
    · cases hstep
  | throwFlush error =>
    unfold Mirror.loopStep at hstep
    dsimp only at hstep
    split at hstep
    · rename_i queued hflushing
      obtain rfl := Option.some.inj hstep
      exact inv_throwFlush h hloop hflushing error
    · cases hstep
  | rejectLoop error =>
    unfold Mirror.loopStep at hstep
    dsimp only at hstep
    split at hstep
    all_goals first
      | rename_i hat
        obtain rfl := Option.some.inj hstep
        exact inv_advance h hloop rfl h.stopped id (fun _ => id)
          (fun hlive => (hstage hlive).reject (by rw [hat]; exact fun _ => nofun)) fun _ => nofun
      | cases hstep
  | callbackDone =>
    unfold Mirror.loopStep at hstep
    dsimp only at hstep
    split at hstep
    · rename_i hat
      obtain rfl := Option.some.inj hstep
      rw [hat] at hstage
      exact inv_advance h hloop rfl h.stopped id (fun _ => id) (fun hlive => (hstage hlive).elim) fun hlive _ => (hstage hlive).elim
    · rename_i hat
      obtain rfl := Option.some.inj hstep
      rw [hat] at hstage
      exact inv_retry config h hloop rfl rfl rfl fun hlive => .inr (hstage hlive)
    · cases hstep
  | continueLoop =>
    unfold Mirror.loopStep at hstep
    dsimp only at hstep
    split at hstep
    · rename_i answer hat
      obtain rfl := Option.some.inj hstep
      exact inv_readFlushed h hloop hat
    · rename_i error hat
      obtain rfl := Option.some.inj hstep
      have hfailed : w.mirror.isLive = true → w.mirror.controller.consecutiveFailures = 0 ∨ 0 < w.mirror.pendingEventCount :=
        fun hlive => (hstage hlive).reject (by rw [hat]; exact fun _ => nofun)
      unfold Mirror.catchEscaped
      dsimp only
      split
      · exact inv_retry config h hloop rfl rfl rfl hfailed
      · rename_i hdisposed
        rw [Bool.not_eq_true, Bool.not_eq_false'] at hdisposed
        have hdead : ¬ w.mirror.isLive = true := fun hlive => by
          rw [(isLive_iff.mp hlive).1] at hdisposed
          cases hdisposed
        exact inv_advance h hloop rfl h.stopped id (fun _ => id) (fun hlive => absurd hlive hdead) fun hlive => absurd hlive hdead
    · rename_i hat
      obtain rfl := Option.some.inj hstep
      exact inv_finishLoop h hloop hat
    · cases hstep
  | enqueue | flush | abort | dispose | fireFlushTimer | fireRetryTimer | continueFlush => cases hstep

theorem inv_dispose (h : MirrorInv w) : MirrorInv { w with mirror := w.mirror.dispose } := by
  unfold Mirror.dispose
  split
  · exact h
  · exact ⟨⟨fun _ => rfl, fun _ _ => nofun, nofun, h.resolved⟩, nofun⟩

theorem inv_step {action : MirrorAction ε ω} {w' : MirrorWorld ε ω} (h : MirrorInv w)
    (hstep : w.step config action = some w') (hsafe : strandsEvents config w action = false)
    (hreturn : interruptsReturn config w action = false) : MirrorInv w' := by
  cases action with
  | enqueue queue =>
    obtain rfl := Option.some.inj hstep
    exact inv_enqueue h hsafe hreturn
  | flush options =>
    obtain rfl := Option.some.inj hstep
    exact inv_flush h hsafe hreturn
  | abort abortSignal =>
    obtain rfl := Option.some.inj hstep
    exact ⟨⟨h.stopped, h.stage, h.drained, h.resolved⟩, h.sends⟩
  | dispose =>
    obtain rfl := Option.some.inj hstep
    exact inv_dispose h
  | fireFlushTimer =>
    unfold MirrorWorld.step at hstep
    dsimp only at hstep
    split at hstep
    · rename_i hquiet
      obtain rfl := Option.some.inj hstep
      exact inv_fire h (Bool.and_eq_true_iff.mp hquiet).1 ⟨none, _, rfl⟩
    · cases hstep
  | fireRetryTimer =>
    unfold MirrorWorld.step at hstep
    dsimp only at hstep
    split at hstep
    · rename_i hquiet
      obtain rfl := Option.some.inj hstep
      exact inv_fire h (Bool.and_eq_true_iff.mp hquiet).1 ⟨_, none, rfl⟩
    · cases hstep
  | continueFlush index =>
    obtain ⟨call, hcall, hnext⟩ := Option.bind_eq_some_iff.mp hstep
    exact inv_continueFlush h hcall hsafe hnext
  | takeQueue | settleFlush | throwFlush | rejectLoop | callbackDone | continueLoop =>
    obtain ⟨loop, hloop, hnext⟩ := Option.bind_eq_some_iff.mp hstep
    obtain ⟨mirror, hmirror, hworld⟩ := Option.bind_eq_some_iff.mp hnext
    obtain rfl := Option.some.inj hworld
    exact inv_loopStep h hloop hmirror

end

/-! ## Nothing is stranded -/

/-- Pending events have someone who sends them, and flush calls that resolved left none behind without a retry. -/
structure NeverStrands (w : MirrorWorld ε ω) : Prop where
  sending : w.isQuiet = true → w.mirror.disposed = false → w.mirror.controller.disabled = false → 0 < w.mirror.pendingEventCount →
    w.mirror.flushTimer.isSome = true ∨ w.mirror.retryTimer.isSome = true ∨ w.mirror.inFlightFlush.isSome = true
  resolved : ∀ flush ∈ w.resolved, flush.snapshot.pendingEventCount = 0 ∨ flush.snapshot.disabled = true ∨ flush.disposed = true ∨
    flush.snapshot.hasRetryTimer = true

def initialMirror (cursors : RunCursors) : MirrorWorld ε ω := { mirror := { controller := { cursors } } }

theorem inv_initial (cursors : RunCursors) : MirrorInv (initialMirror cursors : MirrorWorld ε ω) :=
  ⟨⟨nofun, nofun, fun _ => nofun, nofun⟩, fun _ => nofun⟩

theorem neverStrands_of_inv {w : MirrorWorld ε ω} (h : MirrorInv w) : NeverStrands w where
  sending := by
    intro hquiet hdisposed hdisabled hpending
    have hwill := h.sends (isLive_iff.mpr ⟨hdisposed, hdisabled⟩) hpending
    simp only [MirrorWorld.willSend, Mirror.willSend, Bool.or_eq_true, or_assoc] at hwill
    refine hwill.imp_right (Or.imp_right fun hrest => ?_)
    rw [MirrorWorld.isQuiet, Bool.and_eq_true, List.all_eq_true] at hquiet
    cases hflight : w.mirror.inFlightFlush with
    | some loop => rfl
    | none =>
      -- without a loop in flight, a call that waits for one has a microtask
      rcases hrest with hloop | hcall
      · rw [Mirror.loopSends, hflight] at hloop
        cases hloop
      · obtain ⟨call, hmem, hdraining⟩ := List.any_eq_true.mp hcall
        have hidle := hquiet.2 call hmem
        rw [MirrorWorld.callHasMicrotask, hflight] at hidle
        cases hpoint : call.point with
        | draining loop =>
          rw [hpoint] at hidle
          simp at hidle
        | drained | waitingRetry =>
          rw [FlushCall.isDraining, hpoint] at hdraining
          cases hdraining
  resolved := h.resolved

/-- Events stay pending with nobody to send them only after a flush call threw for its signal with the timers cleared, or a
full batch came in while a loop was ending with its retry scheduled; a flush call resolves over pending events without a retry
only when something came in between the end of its drain and its return. -/
theorem mirror_never_strands (config : MirrorConfig) (cursors : RunCursors) {actions : List (MirrorAction ε ω)} {w : MirrorWorld ε ω}
    (h : Lib.Run (fun w action w' => w.step config action = some w' ∧ strandsEvents config w action = false ∧
      interruptsReturn config w action = false) (initialMirror cursors) actions w) : NeverStrands w := by
  refine neverStrands_of_inv (h.invariant MirrorInv (inv_initial cursors) ?_)
  exact fun _ _ _ hinv hstep => inv_step hinv hstep.1 hstep.2.1 hstep.2.2

def defaultMirror : MirrorConfig where
  immediateFlushEventCount := 2
  flushDelayMs := DEFAULT_FLUSH_DELAY_MS
  getRetryDelayMs := getDefaultRetryDelayMs

def oneEvent : EventQueue Nat Nat := { events := [1] }

/-- An append fails and is retried; then a flush call drains the queue and resolves. -/
theorem mirror_never_strands_retried :
    ∃ actions, ∃ w : MirrorWorld Nat Nat, w.isQuiet = true ∧ w.resolved.length = 1 ∧ w.mirror.flushTimer.isSome = true ∧
      w.mirror.pendingEventCount = 1 ∧
      Lib.Run (fun w action w' => w.step defaultMirror action = some w' ∧ strandsEvents defaultMirror w action = false ∧
        interruptsReturn defaultMirror w action = false) (initialMirror ⟨0, 0⟩) actions w ∧ NeverStrands w := by
  have hrun : Lib.Run (fun w action w' => w.step defaultMirror action = some w' ∧ strandsEvents defaultMirror w action = false ∧
      interruptsReturn defaultMirror w action = false) (initialMirror ⟨0, 0⟩)
      [.enqueue oneEvent, .fireFlushTimer, .takeQueue, .settleFlush (.retryScheduled ⟨0, 0⟩ oneEvent 1 "offline" none), .continueLoop,
        .callbackDone, .continueLoop, .flush {}, .takeQueue, .settleFlush (.flushed ⟨1, 1⟩), .continueLoop, .continueLoop,
        .continueFlush 0, .continueFlush 0, .enqueue oneEvent] _ :=
    .cons ⟨rfl, rfl, rfl⟩ (.cons ⟨rfl, rfl, rfl⟩ (.cons ⟨rfl, rfl, rfl⟩ (.cons ⟨rfl, rfl, rfl⟩ (.cons ⟨rfl, rfl, rfl⟩
      (.cons ⟨rfl, rfl, rfl⟩ (.cons ⟨rfl, rfl, rfl⟩ (.cons ⟨rfl, rfl, rfl⟩ (.cons ⟨rfl, rfl, rfl⟩ (.cons ⟨rfl, rfl, rfl⟩
        (.cons ⟨rfl, rfl, rfl⟩ (.cons ⟨rfl, rfl, rfl⟩ (.cons ⟨rfl, rfl, rfl⟩ (.cons ⟨rfl, rfl, rfl⟩ (.cons ⟨rfl, rfl, rfl⟩
          .nil))))))))))))))
  exact ⟨_, _, rfl, rfl, rfl, rfl, hrun, mirror_never_strands defaultMirror ⟨0, 0⟩ hrun⟩

/-- The signal has fired before the call: the call clears the flush timer and throws. -/
theorem aborted_flush_strands_event :
    ∃ w : MirrorWorld Nat Nat, Lib.Run (fun w action w' => w.step defaultMirror action = some w') (initialMirror ⟨0, 0⟩)
        [.enqueue oneEvent, .abort 0, .flush { abortSignal := some 0 }] w ∧
      w.isQuiet = true ∧ w.mirror.pendingEventCount = 1 ∧ ¬ NeverStrands w := by
  refine ⟨_, .cons rfl (.cons rfl (.cons rfl .nil)), rfl, rfl, fun h => ?_⟩
  exact absurd (h.sending rfl rfl rfl (by decide)) (by decide)

end Veryfront.Agent.Conversation
