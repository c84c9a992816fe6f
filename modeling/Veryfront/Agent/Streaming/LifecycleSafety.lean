import Veryfront.Agent.Streaming.FrameSafety
import Veryfront.Agent.Streaming.Lifecycle

/-!
# A run settles once and hands out what it owes

What the generator has handed out, together with the frames of the reduction it is in, agrees with
the reducer. Once the outcome is settled only the frames of the reduction that settled it follow.
-/

namespace Veryfront.Agent.Streaming

open Veryfront.Lib

/-! ## The promise -/

structure Orderly {Part : Type} (run : StreamRun Part) : Prop where
  numbered : run.handed.map StreamLifecycleFrame.sequence = List.range' 1 run.handed.length
  settled : run.point = .ended → run.outcome.isSome
  quiet : run.overran = false
  owed : run.late <+: run.owed
  complete : run.point = .ended → run.stopped = false → ∀ outcome, run.outcome = some outcome → outcome.succeeded = true →
    (textDeltas (run.handed.map StreamLifecycleFrame.body)).flatten = outcome.snapshot.accumulatedText ∧
      run.produced.Sublist run.handed

def StreamSignal.reduces : StreamSignal → Bool
  | .protocol _ | .usage _ => true
  | _ => false

namespace StreamRun

variable {Part : Type} (json : JsonCodec) (policy : StreamLifecyclePolicy)

/-- The generator takes up a part, the frames of a tool deadline or a signal while the outcome is still open. -/
def safe (run : StreamRun Part) (now : Int) (event : StreamEvent Part) : Bool :=
  match event, run.point with
  | .resume, .raced (.part (.value _)) => run.outcome.isNone
  | .resume, .raced (.providerDeadline deadline) =>
    run.outcome.isNone || !resolvesTools policy deadline ||
      (resolveLocalToolDeadline json (run.elapsedMs now) run.reducer).reduction.frames.isEmpty
  | .decoded signals, .decoding => run.outcome.isNone || !signals.head?.any StreamSignal.reduces
  | .accepted none, .accepting signals => run.outcome.isNone || !signals.head?.any StreamSignal.reduces
  | _, _ => true

def runSafe (run : StreamRun Part) : List (Int × StreamEvent Part) → Bool
  | [] => true
  | (now, event) :: events =>
    run.safe json policy now event && (run.step json policy now event).all fun next => next.runSafe events

end StreamRun

/-! ## The invariant -/

inductive PointKind
  | going | closing | ended

namespace RunPoint

variable {Part : Type}

def kind : RunPoint Part → PointKind
  | .ended => .ended
  | .yielded (.deadline _) | .yielded (.reduction _ true _) => .closing
  | _ => .going

def due : RunPoint Part → List StreamLifecycleFrame
  | .yielded (.deadline frames) | .yielded (.reduction frames _ _) => frames
  | _ => []

end RunPoint

namespace StreamRun

/-- What the invariant is about. -/
structure Account where
  outcome : Option StreamOutcome
  reducer : StreamReducerState
  requests : List ConsumerCall
  handed : List StreamLifecycleFrame
  produced : List StreamLifecycleFrame
  owed : List StreamLifecycleFrame
  late : List StreamLifecycleFrame
  overran : Bool
  stopped : Bool

structure Keeps (due : List StreamLifecycleFrame) (a : Account) : Prop where
  agrees : Agrees (a.handed ++ due) a.reducer
  produced : a.produced.Sublist (a.handed ++ due)
  quiet : a.overran = false
  asked : (∃ call ∈ a.requests, call ≠ .nextCall) → a.stopped = true ∧ a.outcome.isSome

/-- The outcome is open, or something other than the generator has settled it. -/
structure Going (due : List StreamLifecycleFrame) (a : Account) : Prop extends Keeps due a where
  owed : a.late <+: a.owed
  fresh : a.outcome = none → a.late = []
  foreign : ∀ outcome, a.outcome = some outcome → outcome.succeeded = false

structure Closing (due : List StreamLifecycleFrame) (a : Account) : Prop extends Keeps due a where
  owed : a.late ++ due <+: a.owed
  terminal : a.reducer.terminal = true
  settled : ∃ outcome, a.outcome = some outcome ∧
    (outcome.succeeded = true → outcome.snapshot.accumulatedText = a.reducer.snapshot.accumulatedText)

structure Closed (a : Account) : Prop where
  numbered : a.handed.map StreamLifecycleFrame.sequence = List.range' 1 a.handed.length
  settled : a.outcome.isSome
  quiet : a.overran = false
  owed : a.late <+: a.owed
  complete : a.stopped = false → ∀ outcome, a.outcome = some outcome → outcome.succeeded = true →
    (textDeltas (a.handed.map StreamLifecycleFrame.body)).flatten = outcome.snapshot.accumulatedText ∧
      a.produced.Sublist a.handed

variable {Part : Type} {json : JsonCodec} {policy : StreamLifecyclePolicy} {now : Int} {run : StreamRun Part}
  {due : List StreamLifecycleFrame}

def account (run : StreamRun Part) : Account :=
  ⟨run.outcome, run.reducer, run.requests, run.handed, run.produced, run.owed, run.late, run.overran, run.stopped⟩

def Inv (run : StreamRun Part) : Prop :=
  match run.point.kind with
  | .going => Going run.point.due run.account
  | .closing => Closing run.point.due run.account
  | .ended => Closed run.account

variable {next : StreamRun Part}

theorem Inv.of_account (h : Inv run) (hkind : next.point.kind = run.point.kind)
    (hdue : next.point.due = run.point.due) (haccount : next.account = run.account) : Inv next := by
  rw [Inv, hkind, hdue, haccount]
  exact h

theorem Inv.going (h : Inv run) (hopen : run.outcome = none) : run.point.kind = .going ∧ Going run.point.due run.account := by
  rw [Inv] at h
  split at h
  · rename_i hkind
    exact ⟨hkind, h⟩
  · obtain ⟨outcome, houtcome, -⟩ := h.settled
    cases hopen.symm.trans houtcome
  · have hsettled : run.outcome.isSome := h.settled
    rw [hopen] at hsettled
    cases hsettled

theorem inv_of_going (hkind : run.point.kind = .going) (h : Going run.point.due run.account) : Inv run := by
  rw [Inv, hkind]
  exact h

/-! ## Frames and numbers -/

variable {frames : List StreamLifecycleFrame}

theorem numbered_left {rest : List StreamLifecycleFrame}
    (h : (frames ++ rest).map StreamLifecycleFrame.sequence = List.range' 1 (frames ++ rest).length) :
    frames.map StreamLifecycleFrame.sequence = List.range' 1 frames.length := by
  rw [List.map_append, List.length_append, List.range'_append_1.symm] at h
  exact (List.append_inj h (by rw [List.length_map, List.length_range'])).1

theorem Keeps.numbered {a : Account} (h : Keeps due a) :
    a.handed.map StreamLifecycleFrame.sequence = List.range' 1 a.handed.length := numbered_left h.agrees.numbered

/-! ## Outcomes -/

theorem accumulatedText_resolveSnapshot (input : ResolveStreamOutcomeInput) :
    (resolveSnapshot input).snapshot.accumulatedText = input.snapshot.accumulatedText := by
  unfold resolveSnapshot
  split
  · rfl
  · split <;> rfl
  · rfl

theorem accumulatedText_resolve (input : ResolveStreamOutcomeInput) :
    (resolveStreamOutcome input).snapshot.accumulatedText = input.snapshot.accumulatedText := by
  unfold resolveStreamOutcome
  split
  · rfl
  · rfl
  · split
    · split
      · exact accumulatedText_resolveSnapshot input
      · rfl
    · rfl
    · exact accumulatedText_resolveSnapshot input

theorem settle_settled {outcome : StreamOutcome} (h : run.outcome.isSome) : run.settle outcome = run := by
  obtain ⟨settled, hsettled⟩ := Option.isSome_iff_exists.mp h
  rw [settle, hsettled, Option.some_or, ← hsettled]

theorem settleCancelled_settled {source : StreamCancellationSource} (h : run.outcome.isSome) :
    run.settleCancelled now source = run := if_pos h

theorem isSome_or_some (settled : Option StreamOutcome) (outcome : StreamOutcome) : (settled.or (some outcome)).isSome := by
  rw [Option.isSome_or]
  exact Bool.or_true _

theorem isSome_settleCancelled (run : StreamRun Part) (now : Int) (source : StreamCancellationSource) :
    (run.settleCancelled now source).outcome.isSome := by
  unfold settleCancelled
  split
  · assumption
  · exact isSome_or_some _ _

theorem Going.outcome {a : Account} {outcome : StreamOutcome} {reducer : StreamReducerState} (h : Going due a)
    (hfailed : outcome.succeeded = false) (hagrees : Agrees (a.handed ++ due) reducer) :
    Going due { a with outcome := a.outcome.or (some outcome), reducer } where
  agrees := hagrees
  produced := h.produced
  quiet := h.quiet
  asked := fun hasked => ⟨(h.asked hasked).1, isSome_or_some a.outcome outcome⟩
  owed := h.owed
  fresh hnone := absurd hnone (by cases a.outcome <;> exact nofun)
  foreign settled hsettled := by
    cases houtcome : a.outcome with
    | none =>
      rw [houtcome, Option.none_or, Option.some_inj] at hsettled
      exact hsettled ▸ hfailed
    | some earlier =>
      rw [houtcome, Option.some_or, Option.some_inj] at hsettled
      exact hsettled ▸ h.foreign earlier houtcome

theorem Going.settleCancelled (h : Going due run.account) (now : Int) (source : StreamCancellationSource) :
    Going due (run.settleCancelled now source).account := by
  unfold StreamRun.settleCancelled
  split
  · exact h
  · exact h.outcome (by exact rfl) (h.agrees.congr rfl rfl rfl rfl rfl rfl)

theorem Going.settleFailed (h : Going due run.account) (now : Int) (error : StreamLifecycleError) :
    Going due (run.settleFailed now error).account :=
  h.outcome (by exact rfl) (h.agrees.congr rfl rfl rfl rfl rfl rfl)

theorem Going.settleAttemptTimeout (h : Going due run.account) (now : Int) :
    Going due (run.settleAttemptTimeout now).account := by
  unfold StreamRun.settleAttemptTimeout
  split
  · exact h
  · exact h.settleFailed now _

/-! ## The end -/

theorem Going.finish (h : Going due run.account) (now : Int) : Inv (run.finish now) := by
  have hcancelled := h.settleCancelled now .consumerStopped
  exact
    { numbered := hcancelled.numbered
      settled := isSome_settleCancelled run now .consumerStopped
      quiet := hcancelled.quiet
      owed := hcancelled.owed
      complete := fun _ outcome houtcome hsucceeded =>
        absurd hsucceeded (by rw [hcancelled.foreign outcome houtcome]; exact Bool.false_ne_true) }

theorem Closing.finish (h : Closing due run.account) (now : Int) (hend : due = [] ∨ run.stopped = true) :
    Inv (run.finish now) := by
  obtain ⟨outcome, houtcome, htext⟩ := h.settled
  have hsome : run.outcome.isSome := Option.isSome_of_eq_some houtcome
  show Closed (run.settleCancelled now .consumerStopped).account
  rw [settleCancelled_settled hsome]
  refine ⟨h.numbered, hsome, h.quiet, (List.prefix_append _ _).trans h.owed, fun hstopped settled hsettled hsucceeded => ?_⟩
  obtain rfl : outcome = settled := Option.some.inj (houtcome.symm.trans hsettled)
  obtain rfl : due = [] := hend.resolve_right fun hyes => Bool.false_ne_true (hstopped.symm.trans hyes)
  have hagrees := h.agrees
  have hproduced := h.produced
  rw [List.append_nil] at hagrees hproduced
  exact ⟨hagrees.text.trans (htext hsucceeded).symm, hproduced⟩

theorem Going.settle_finish {outcome : StreamOutcome} (h : Going [] run.account) (now : Int)
    (htext : outcome.snapshot.accumulatedText = run.reducer.snapshot.accumulatedText) : Inv ((run.settle outcome).finish now) := by
  cases houtcome : run.outcome with
  | some earlier =>
    rw [settle_settled (Option.isSome_of_eq_some houtcome)]
    exact h.finish now
  | none =>
    have hsettled : (run.settle outcome).outcome = some outcome := by rw [settle, houtcome, Option.none_or]
    have hsome : (run.settle outcome).outcome.isSome := Option.isSome_of_eq_some hsettled
    show Closed ((run.settle outcome).settleCancelled now .consumerStopped).account
    rw [settleCancelled_settled hsome]
    refine ⟨h.numbered, hsome, h.quiet, h.owed, fun _ settled heq _ => ?_⟩
    obtain rfl : outcome = settled := Option.some.inj (hsettled.symm.trans heq)
    have hagrees := h.agrees
    have hproduced := h.produced
    rw [List.append_nil] at hagrees hproduced
    exact ⟨hagrees.text.trans htext.symm, hproduced⟩

theorem Going.providerFailure_finish (h : Going [] run.account) (now : Int) (thrown : Option ThrownStreamError)
    (error : StreamProviderError) : Inv ((run.settleProviderFailure now thrown error).finish now) :=
  h.settle_finish now (accumulatedText_resolve _)

/-! ## Handing out -/

theorem Going.hand {frame : StreamLifecycleFrame} (h : Going (frame :: due) run.account) (hopen : run.outcome = none)
    (rest : AfterYield) : Going due (run.hand frame rest).account where
  agrees := by
    show Agrees (run.handed ++ [frame] ++ due) run.reducer
    rw [List.append_assoc]
    exact h.agrees
  produced := by
    show run.produced.Sublist (run.handed ++ [frame] ++ due)
    rw [List.append_assoc]
    exact h.produced
  quiet := h.quiet
  asked := fun ⟨call, hcall, hne⟩ => h.asked ⟨call, List.mem_of_mem_tail hcall, hne⟩
  owed := by
    show (if run.outcome.isSome then run.late ++ [frame] else run.late) <+: run.owed
    rw [hopen]
    exact h.owed
  fresh := by
    show run.outcome = none → (if run.outcome.isSome then run.late ++ [frame] else run.late) = []
    rw [hopen]
    exact fun _ => h.fresh hopen
  foreign := h.foreign

theorem Closing.hand {frame : StreamLifecycleFrame} (h : Closing (frame :: due) run.account) (rest : AfterYield) :
    Closing due (run.hand frame rest).account where
  agrees := by
    show Agrees (run.handed ++ [frame] ++ due) run.reducer
    rw [List.append_assoc]
    exact h.agrees
  produced := by
    show run.produced.Sublist (run.handed ++ [frame] ++ due)
    rw [List.append_assoc]
    exact h.produced
  quiet := h.quiet
  asked := fun ⟨call, hcall, hne⟩ => h.asked ⟨call, List.mem_of_mem_tail hcall, hne⟩
  owed := by
    obtain ⟨outcome, houtcome, -⟩ := h.settled
    have hsome : run.outcome.isSome := Option.isSome_of_eq_some houtcome
    show (if run.outcome.isSome then run.late ++ [frame] else run.late) ++ due <+: run.owed
    rw [if_pos hsome, List.append_assoc]
    exact h.owed
  terminal := h.terminal
  settled := h.settled

theorem Going.sequenceFrame (h : Going [] run.account) (now : Int) (body : FrameBody) (hneutral : isNeutral body = true) :
    Going [(run.sequenceFrame now body).1] (run.sequenceFrame now body).2.account where
  agrees := by
    have hagrees := h.agrees
    rw [List.append_nil] at hagrees
    exact sound_neutral (sound_start hagrees) hneutral
  produced := by
    have hproduced := h.produced
    rw [List.append_nil] at hproduced
    exact hproduced.trans (List.sublist_append_left _ _)
  quiet := h.quiet
  asked := h.asked
  owed := h.owed
  fresh := h.fresh
  foreign := h.foreign

/-! ## Waiting for the provider -/

theorem Going.raceRead (h : Going [] run.account) (now : Int) (read : TrackedProviderRead Part) : Inv (run.raceRead now read) := by
  unfold StreamRun.raceRead
  split <;> exact h

theorem Going.awaitRead (h : Going [] run.account) (policy : StreamLifecyclePolicy) (now : Int) (read : TrackedProviderRead Part) :
    Inv (run.awaitRead policy now read) := by
  have hwaiting : Going [] { run with
      pendingRead := some read
      deadlines := run.deadlines.resumeProviderWait policy now run.reducer.snapshot }.account := h
  exact hwaiting.raceRead now read

theorem Going.readNext (h : Going [] run.account) (policy : StreamLifecyclePolicy) (now : Int) :
    Inv (run.readNext policy now) := by
  unfold StreamRun.readNext
  split
  · exact h.finish now
  · rename_i hopen
    split
    · refine inv_of_going rfl ⟨⟨h.agrees, h.produced, ?_, h.asked⟩, h.owed, h.fresh, h.foreign⟩
      exact Bool.or_eq_false_iff.mpr ⟨h.quiet, Bool.eq_false_iff.mpr hopen⟩
    · exact h.awaitRead policy now _

theorem Going.reportStatus (policy : StreamLifecyclePolicy) (now : Int) (ids : List JsText) (h : Going [] run.account) :
    Inv (run.reportStatus policy now ids) := by
  induction ids with
  | nil => exact h.readNext policy now
  | cons id ids ih =>
    unfold StreamRun.reportStatus
    split
    · exact h.finish now
    · rename_i hopen
      split
      · exact ih
      · split
        · exact ih
        · exact Going.hand (h.sequenceFrame now _ rfl) (Option.not_isSome_iff_eq_none.mp hopen) (.status ids)

/-! ## Reductions -/

theorem Keeps.extend {a : Account} (h : Keeps [] a) (frames : List StreamLifecycleFrame) :
    (a.produced ++ frames).Sublist (a.handed ++ frames) := by
  have hproduced := h.produced
  rw [List.append_nil] at hproduced
  exact hproduced.append (List.Sublist.refl _)

theorem Going.settleReduction {outcome : StreamOutcome} {reducer : StreamReducerState}
    (h : Going [] run.account) (hopen : run.outcome = none) (hagrees : Agrees (run.handed ++ frames) reducer)
    (hterminal : reducer.terminal = true)
    (htext : outcome.snapshot.accumulatedText = reducer.snapshot.accumulatedText) :
    Closing frames { run.settleReduction frames outcome with reducer, produced := run.produced ++ frames }.account where
  agrees := hagrees
  produced := h.extend frames
  quiet := h.quiet
  asked := fun hasked => ⟨(h.asked hasked).1, isSome_or_some run.outcome outcome⟩
  owed := by
    have hlate : run.late = [] := h.fresh hopen
    show run.late ++ frames <+: if run.outcome.isSome then run.owed else frames
    rw [hlate, hopen]
    exact List.prefix_refl _
  terminal := hterminal
  settled := by
    refine ⟨outcome, ?_, fun _ => htext⟩
    show run.outcome.or (some outcome) = some outcome
    rw [hopen, Option.none_or]

theorem Going.commitReduction {reduced : StreamReduction} (h : Going [] run.account) (hopen : run.outcome = none)
    (policy : StreamLifecyclePolicy) (now : Int) (hagrees : Agrees (run.handed ++ reduced.frames) reduced.state) :
    if reduced.state.terminal then Closing reduced.frames (run.commitReduction policy now reduced).account
    else Going reduced.frames (run.commitReduction policy now reduced).account ∧
      (run.commitReduction policy now reduced).outcome = none := by
  unfold StreamRun.commitReduction
  dsimp only
  split
  · rename_i hterminal
    exact h.settleReduction hopen hagrees hterminal (accumulatedText_resolve _)
  · exact ⟨⟨⟨hagrees, h.extend _, h.quiet, h.asked⟩, h.owed, h.fresh, h.foreign⟩, hopen⟩

variable {signals : List StreamSignal}

theorem Going.handReduction {next : StreamRun Part → StreamRun Part} (h : Going due run.account)
    (now : Int) (hopen : run.outcome = none) (hnext : Going [] run.account → Inv (next run)) :
    Inv (run.handReduction now due false signals next) := by
  unfold StreamRun.handReduction
  split
  · split
    · exact h.finish now
    · exact hnext h
  · rw [hopen]
    exact Going.hand h hopen _

theorem Closing.handReduction {next : StreamRun Part → StreamRun Part} (h : Closing due run.account)
    (now : Int) : Inv (run.handReduction now due true signals next) := by
  unfold StreamRun.handReduction
  split
  · have hterminal : run.reducer.terminal = true := h.terminal
    rw [if_pos hterminal]
    exact h.finish now (.inl rfl)
  · exact Closing.hand h _

theorem Going.reduceAll (signals : List StreamSignal) (h : Going [] run.account)
    (hsafe : run.outcome = none ∨ signals.head?.any StreamSignal.reduces = false) :
    Inv (run.reduceAll json policy now signals) := by
  induction signals generalizing run with
  | nil => exact h.readNext policy now
  | cons signal signals ih =>
    have hreduced (hreduces : signal.reduces = true) (reduced : StreamReduction)
        (hreduced : reduceStreamSignal json (run.elapsedMs now) policy.requireProviderFinish run.reducer signal = some reduced) :
        Inv ((run.commitReduction policy now reduced).handReduction now reduced.frames reduced.state.terminal signals
          fun run => run.reduceAll json policy now signals) := by
      have hopen : run.outcome = none := hsafe.resolve_right (by
        rw [List.head?_cons, Option.any_some, hreduces]
        exact nofun)
      have hagrees := h.agrees
      rw [List.append_nil] at hagrees
      have hcommitted := h.commitReduction hopen policy now (agrees_reduceStreamSignal hagrees hreduced)
      split at hcommitted
      · rename_i hterminal
        rw [hterminal]
        exact Closing.handReduction hcommitted now
      · rename_i hlive
        rw [Bool.eq_false_iff.mpr hlive]
        exact Going.handReduction hcommitted.1 now hcommitted.2 fun hgoing => ih hgoing (.inl hcommitted.2)
    cases signal with
    | diagnosticCandidate => exact inv_of_going rfl h
    | providerError error => exact h.providerFailure_finish now none error
    | protocol event =>
      unfold StreamRun.reduceAll
      dsimp only
      split
      · exact h.finish now
      · exact hreduced rfl _ ‹_›
    | usage usage =>
      unfold StreamRun.reduceAll
      dsimp only
      split
      · exact h.finish now
      · exact hreduced rfl _ ‹_›

/-! ## The deadline of the local tools -/

theorem quiet_settleAtDeadline (json : JsonCodec) (elapsedMs : Int) (d : StreamReduction) (entry : JsText × StreamToolSnapshot) :
    Quiet d (settleAtDeadline json elapsedMs d entry) := by
  unfold settleAtDeadline
  dsimp only
  split
  · exact .refl
  · split
    · exact (quiet_setTool d _ _).trans (quiet_emit _ elapsedMs rfl)
    · split
      · exact (quiet_setTool d _ _).trans (quiet_emit _ elapsedMs rfl)
      · exact quiet_setTool d _ _

theorem quiet_settleAllAtDeadline (json : JsonCodec) (elapsedMs : Int) (entries : List (JsText × StreamToolSnapshot))
    (d : StreamReduction) :
    Quiet d (entries.foldl (settleAtDeadline json elapsedMs) d) := by
  induction entries generalizing d with
  | nil => exact .refl
  | cons entry entries ih => exact (quiet_settleAtDeadline json elapsedMs d entry).trans (ih _)

theorem agrees_resolveLocalToolDeadline {state : StreamReducerState}
    (h : Agrees frames state) (json : JsonCodec) (elapsedMs : Int) :
    let resolution := resolveLocalToolDeadline json elapsedMs state
    Agrees (frames ++ resolution.reduction.frames) (resolution.settledReducer elapsedMs) ∧
      (resolution.settledReducer elapsedMs).terminal = true ∧
      (settleLocalToolDeadline resolution elapsedMs).snapshot.accumulatedText =
        (resolution.settledReducer elapsedMs).snapshot.accumulatedText := by
  have hsound := (quiet_settleAllAtDeadline json elapsedMs state.tools.entries { state }).sound frames (sound_start h)
  unfold resolveLocalToolDeadline
  dsimp only
  split
  · exact ⟨Agrees.congr hsound rfl rfl rfl rfl rfl rfl, rfl, accumulatedText_resolve _⟩
  · exact ⟨Agrees.congr hsound rfl rfl rfl rfl rfl rfl, rfl, rfl⟩

theorem Closing.handDeadline (h : Closing frames run.account) (now : Int) :
    Inv (run.handDeadline now frames) := by
  cases frames with
  | nil =>
    have haborted : Closing [] run.abortProvider.account := h
    exact haborted.finish now (.inl rfl)
  | cons frame frames => exact Closing.hand h _

theorem Going.resolveTools (h : Going [] run.account) (now : Int)
    (hsafe : run.outcome = none ∨ (resolveLocalToolDeadline json (run.elapsedMs now) run.reducer).reduction.frames = []) :
    Inv (run.resolveTools json now) := by
  have hstart : Agrees (run.handed ++ []) run.reducer := h.agrees
  rw [List.append_nil] at hstart
  obtain ⟨hagrees, hterminal, htext⟩ := agrees_resolveLocalToolDeadline hstart json (run.elapsedMs now)
  unfold StreamRun.resolveTools
  generalize resolveLocalToolDeadline json (run.elapsedMs now) run.reducer = resolution at hagrees hterminal htext hsafe
  cases hopen : run.outcome with
  | none => exact Closing.handDeadline (h.settleReduction hopen hagrees hterminal htext) now
  | some outcome =>
    have hsome := Option.isSome_of_eq_some hopen
    have hnone : resolution.reduction.frames = [] := hsafe.resolve_left (by rw [hopen]; exact nofun)
    have hsettled : run.settleReduction [] (settleLocalToolDeadline resolution (run.elapsedMs now)) = run := by
      rw [StreamRun.settleReduction, settle_settled hsome, if_pos hsome]
    rw [hnone] at hagrees
    dsimp only
    rw [hnone, hsettled]
    have hkept : Going [] (StreamRun.abortProvider { run with
        reducer := resolution.settledReducer (run.elapsedMs now), produced := run.produced ++ [] }).account :=
      ⟨⟨hagrees, h.extend [], h.quiet, h.asked⟩, h.owed, h.fresh, h.foreign⟩
    exact hkept.finish now

theorem Going.afterDeadline {deadline : StreamProviderDeadlineKind} (h : Going [] run.account) (now : Int)
    (hsafe : run.outcome = none ∨ resolvesTools policy deadline = false ∨
      (resolveLocalToolDeadline json (run.elapsedMs now) run.reducer).reduction.frames = []) :
    Inv (run.afterDeadline json policy now deadline) := by
  unfold StreamRun.afterDeadline
  split
  · rename_i hresolves
    refine h.resolveTools now (hsafe.imp_right fun hother => hother.resolve_left fun hno => ?_)
    rw [hno] at hresolves
    cases hresolves
  · have haborted (error : StreamLifecycleError) : Going [] (run.settleFailed now error).abortProvider.account :=
      h.settleFailed now error
    exact (haborted _).finish now

/-! ## The generator's turn -/

theorem Going.afterDone (h : Going [] run.account) (policy : StreamLifecyclePolicy) (now : Int) :
    Inv (run.afterDone policy now) := by
  unfold StreamRun.afterDone
  split
  · exact h.settle_finish now (accumulatedText_resolve _)
  · split
    · exact h.providerFailure_finish now none _
    · exact h.settle_finish now (accumulatedText_resolve _)

theorem Going.afterAccept {safe : Option StreamSafeDiagnosticEvent} (h : Going [] run.account)
    (hsafe : safe = none → run.outcome = none ∨ signals.head?.any StreamSignal.reduces = false) :
    Inv (run.afterAccept json policy now signals safe) := by
  cases safe with
  | none => exact h.reduceAll signals (hsafe rfl)
  | some safe =>
    rw [StreamRun.afterAccept]
    split
    · exact h.finish now
    · rename_i hopen
      exact Going.hand (h.sequenceFrame now _ rfl) (Option.not_isSome_iff_eq_none.mp hopen) (.diagnostic signals)

theorem Inv.afterYield {rest : AfterYield} (h : Inv run) (hpoint : run.point = .yielded rest) :
    Inv (run.afterYield json policy now rest) := by
  rw [Inv, hpoint] at h
  cases rest with
  | status ids =>
    rw [StreamRun.afterYield]
    split
    · exact Going.finish h now
    · exact Going.reportStatus policy now ids h
  | deadline frames => exact Closing.handDeadline h now
  | diagnostic signals =>
    rw [StreamRun.afterYield]
    split
    · exact Going.finish h now
    · rename_i hopen
      exact Going.reduceAll signals h (.inl (Option.not_isSome_iff_eq_none.mp hopen))
  | reduction frames terminalCommitted signals =>
    rw [StreamRun.afterYield]
    cases terminalCommitted with
    | true =>
      have hclosing : Closing frames run.account := h
      rw [Bool.not_true, Bool.false_and, if_neg Bool.false_ne_true]
      exact hclosing.handReduction now
    | false =>
      have hgoing : Going frames run.account := h
      rw [Bool.not_false, Bool.true_and]
      split
      · exact hgoing.finish now
      · rename_i hopen
        have hnone := Option.not_isSome_iff_eq_none.mp hopen
        exact hgoing.handReduction now hnone fun hempty => hempty.reduceAll signals (.inl hnone)

theorem safe_resume (run : StreamRun Part) (now : Int) : run.safe json policy now .resume =
    match run.point with
    | .raced (.part (.value _)) => run.outcome.isNone
    | .raced (.providerDeadline deadline) =>
      run.outcome.isNone || !resolvesTools policy deadline ||
        (resolveLocalToolDeadline json (run.elapsedMs now) run.reducer).reduction.frames.isEmpty
    | _ => true := by
  unfold safe
  cases run.point with
  | raced race =>
    cases race with
    | part result => cases result <;> rfl
    | _ => rfl
  | _ => rfl

theorem Going.afterRace {race : StreamReadRace Part} {deadlines : StreamDeadlineController} (h : Going [] run.account)
    (hpoint : run.point = .raced race) (hsafe : run.safe json policy now .resume = true) :
    Inv ({ run with deadlines }.afterRace json policy now race) := by
  rw [safe_resume, hpoint] at hsafe
  have hpaused : Going [] { run with deadlines }.account := h
  cases race with
  | status ids => exact Going.reportStatus policy now ids hpaused
  | providerDeadline deadline =>
    refine hpaused.afterDeadline now ?_
    rw [Bool.or_eq_true, Bool.or_eq_true, Option.isNone_iff_eq_none, Bool.not_eq_true', List.isEmpty_iff, or_assoc] at hsafe
    exact hsafe
  | attemptTimeout => exact (hpaused.settleAttemptTimeout now).finish now
  | cancelled => exact hpaused.finish now
  | readError error => exact inv_of_going rfl h
  | part result =>
    cases result with
    | done =>
      have hread : Going [] { run with deadlines, pendingRead := none }.account := h
      exact hread.afterDone policy now
    | value part =>
      refine inv_of_going rfl ⟨⟨h.agrees, h.produced, ?_, h.asked⟩, h.owed, h.fresh, h.foreign⟩
      have hopen : run.outcome.isSome = false := by
        rw [Option.isNone_iff_eq_none.mp hsafe]
        rfl
      exact Bool.or_eq_false_iff.mpr ⟨h.quiet, hopen⟩

/-! ## Meanwhile -/

theorem settleCancelled_point (run : StreamRun Part) (now : Int) (source : StreamCancellationSource) :
    (run.settleCancelled now source).point = run.point := by
  unfold settleCancelled
  split <;> rfl

theorem settleCancelled_stopped (run : StreamRun Part) (now : Int) (source : StreamCancellationSource) :
    (run.settleCancelled now source).stopped = run.stopped := by
  unfold settleCancelled
  split <;> rfl

theorem select_cases (run : StreamRun Part) (now : Int) (source : StreamCancellationSource) :
    run.select now source = run ∨
      ∃ cancellation, run.select now source = { run.settleCancelled now source with cancellation } := by
  unfold select
  split
  · exact .inl rfl
  · split
    · exact .inl rfl
    · exact .inr ⟨_, rfl⟩

theorem select_point (run : StreamRun Part) (now : Int) (source : StreamCancellationSource) :
    (run.select now source).point = run.point := by
  rcases select_cases run now source with heq | ⟨cancellation, heq⟩
  · rw [heq]
  · rw [heq]
    exact settleCancelled_point run now source

theorem select_stopped (run : StreamRun Part) (now : Int) (source : StreamCancellationSource) :
    (run.select now source).stopped = run.stopped := by
  rcases select_cases run now source with heq | ⟨cancellation, heq⟩
  · rw [heq]
  · rw [heq]
    exact settleCancelled_stopped run now source

theorem select_settled (now : Int) (source : StreamCancellationSource) (h : run.outcome.isSome) :
    (run.select now source).outcome.isSome := by
  rcases select_cases run now source with heq | ⟨cancellation, heq⟩
  · rw [heq]
    exact h
  · rw [heq]
    exact isSome_settleCancelled run now source

theorem Going.select (h : Going due run.account) (now : Int) (source : StreamCancellationSource) :
    Going due (run.select now source).account := by
  rcases select_cases run now source with heq | ⟨cancellation, heq⟩
  · rw [heq]
    exact h
  · rw [heq]
    exact h.settleCancelled now source

theorem Inv.settleCancelled (h : Inv run) (now : Int) (source : StreamCancellationSource) :
    Inv (run.settleCancelled now source) := by
  cases hopen : run.outcome with
  | some outcome =>
    rw [settleCancelled_settled (Option.isSome_of_eq_some hopen)]
    exact h
  | none =>
    obtain ⟨hkind, hgoing⟩ := h.going hopen
    have hpoint := settleCancelled_point run now source
    refine inv_of_going (hpoint ▸ hkind) ?_
    rw [hpoint]
    exact hgoing.settleCancelled now source

theorem Inv.select (h : Inv run) (now : Int) (source : StreamCancellationSource) : Inv (run.select now source) := by
  rcases select_cases run now source with heq | ⟨cancellation, heq⟩
  · rw [heq]
    exact h
  · rw [heq]
    exact (h.settleCancelled now source).of_account rfl rfl rfl

theorem Inv.settleAttemptTimeout (h : Inv run) (now : Int) : Inv (run.settleAttemptTimeout now) := by
  unfold StreamRun.settleAttemptTimeout
  split
  · exact h
  · rename_i hopen
    obtain ⟨hkind, hgoing⟩ := h.going (Option.not_isSome_iff_eq_none.mp hopen)
    exact inv_of_going hkind (hgoing.settleFailed now _)

theorem Inv.ask {requests : List ConsumerCall} {stopped : Bool} (h : Inv run)
    (hasked : run.point.kind = .ended ∨ ((∃ call ∈ requests, call ≠ .nextCall) → stopped = true ∧ run.outcome.isSome))
    (hstopped : run.point.kind = .ended → stopped = run.stopped) : Inv { run with requests, stopped } := by
  cases hkind : run.point.kind with
  | going =>
    rw [Inv, hkind] at h ⊢
    have hstop := hasked.resolve_left (by rw [hkind]; exact nofun)
    exact ⟨⟨h.agrees, h.produced, h.quiet, hstop⟩, h.owed, h.fresh, h.foreign⟩
  | closing =>
    rw [Inv, hkind] at h ⊢
    have hstop := hasked.resolve_left (by rw [hkind]; exact nofun)
    exact ⟨⟨h.agrees, h.produced, h.quiet, hstop⟩, h.owed, h.terminal, h.settled⟩
  | ended =>
    rw [Inv, hkind] at h ⊢
    obtain rfl := hstopped hkind
    exact ⟨h.numbered, h.settled, h.quiet, h.owed, h.complete⟩

theorem Inv.stop (h : Inv run) (now : Int) (call : ConsumerCall) : Inv (run.stop now call) := by
  have hsettled := (h.settleCancelled now .consumerStopped).select now .consumerStopped
  have hsome : ((run.settleCancelled now .consumerStopped).select now .consumerStopped).outcome.isSome :=
    select_settled now .consumerStopped (isSome_settleCancelled run now .consumerStopped)
  refine hsettled.ask ?_ fun hended => ?_
  · rw [select_point, settleCancelled_point]
    cases run.point with
    | ended => exact .inl rfl
    | _ => exact .inr fun _ => ⟨rfl, hsome⟩
  · rw [select_point, settleCancelled_point] at hended
    rw [select_stopped, settleCancelled_stopped]
    cases hpoint : run.point with
    | ended => rfl
    | yielded rest =>
      rw [hpoint] at hended
      unfold RunPoint.kind at hended
      split at hended <;> contradiction
    | _ =>
      rw [hpoint] at hended
      cases hended

theorem Inv.begin (h : Inv run) (hpoint : run.point = .unstarted) (policy : StreamLifecyclePolicy) (now : Int) :
    Inv (run.begin policy now) := by
  have hgoing : Going [] run.account := by
    rw [Inv, hpoint] at h
    exact h
  have hstarted : Going [] { run with
      attemptStartMs := some now
      attemptArmed := true
      deadlines := { attemptDeadlineMs := now + policy.attemptTimeoutMs }
      cancellation := some {} }.account := hgoing
  unfold StreamRun.begin
  dsimp only
  split
  · exact (hstarted.select now _).finish now
  · exact inv_of_going rfl hgoing

theorem Inv.interrupt {rest : AfterYield} {call : ConsumerCall} {calls : List ConsumerCall} (h : Inv run)
    (hpoint : run.point = .yielded rest) (hrequests : run.requests = call :: calls) (hcall : call ≠ .nextCall) :
    Inv (run.finish now) := by
  have hasked : ∃ call ∈ run.requests, call ≠ .nextCall := ⟨call, hrequests ▸ List.mem_cons_self, hcall⟩
  rw [Inv] at h
  split at h
  · exact Going.finish h now
  · exact Closing.finish h now (.inr (h.asked hasked).1)
  · rename_i hkind
    rw [hpoint] at hkind
    unfold RunPoint.kind at hkind
    split at hkind <;> contradiction

theorem Inv.resume (h : Inv run) (hsafe : run.safe json policy now .resume = true)
    (hresume : run.resume json policy now = some next) : Inv next := by
  rw [StreamRun.resume] at hresume
  split at hresume
  · rename_i hpoint _
    exact Option.some.inj hresume ▸ h.begin hpoint policy now
  · rename_i call calls hcall hpoint hrequests
    have hgoing : Going [] run.account := by
      rw [Inv, hpoint] at h
      exact h
    have hasked : ∃ call ∈ run.requests, call ≠ .nextCall := ⟨call, hrequests ▸ List.mem_cons_self, hcall⟩
    have hsettled := (hgoing.asked hasked).2
    rw [← Option.some.inj hresume]
    refine ⟨hgoing.numbered, hsettled, hgoing.quiet, hgoing.owed, fun _ outcome houtcome hsucceeded => ?_⟩
    exact absurd hsucceeded (by rw [hgoing.foreign outcome houtcome]; exact Bool.false_ne_true)
  · rename_i hpoint
    have hgoing : Going [] run.account := by
      rw [Inv, hpoint] at h
      exact h
    exact Option.some.inj hresume ▸ hgoing.afterRace hpoint hsafe
  · rename_i hpoint _
    exact Option.some.inj hresume ▸ h.afterYield hpoint
  · rename_i rest call calls hcall hpoint hrequests
    exact Option.some.inj hresume ▸ h.interrupt hpoint hrequests hcall
  · cases hresume

theorem Inv.abortInput {index : Nat} (h : Inv run) (hstep : run.abortInput now index = some next) :
    Inv next := by
  rw [StreamRun.abortInput] at hstep
  split at hstep
  · cases hstep
  · split at hstep
    · cases hstep
    · rw [← Option.some.inj hstep]
      have hmarked (inputs : List StreamCancellationInput) : Inv { run with inputs } := h.of_account rfl rfl rfl
      split
      · exact (hmarked _).select now _
      · exact hmarked _

theorem Inv.going_at {point : RunPoint Part} (h : Inv run) (hpoint : run.point = point) (hkind : point.kind = .going)
    (hdue : point.due = []) : Going [] run.account := by
  rw [Inv, hpoint, hkind, hdue] at h
  exact h

theorem Inv.step {event : StreamEvent Part} (h : Inv run)
    (hsafe : run.safe json policy now event = true) (hstep : run.step json policy now event = some next) : Inv next := by
  cases event with
  | call call =>
    have hnext : Inv (run.ask .nextCall) := by
      refine h.ask ?_ fun _ => rfl
      cases hkind : run.point.kind with
      | ended => exact .inl rfl
      | going =>
        rw [Inv, hkind] at h
        exact .inr fun ⟨call, hcall, hne⟩ => h.asked ⟨call, (List.mem_append.mp hcall).resolve_right fun hlast =>
          hne (List.mem_singleton.mp hlast), hne⟩
      | closing =>
        rw [Inv, hkind] at h
        exact .inr fun ⟨call, hcall, hne⟩ => h.asked ⟨call, (List.mem_append.mp hcall).resolve_right fun hlast =>
          hne (List.mem_singleton.mp hlast), hne⟩
    cases call with
    | nextCall => exact Option.some.inj hstep ▸ hnext
    | returnCall => exact Option.some.inj hstep ▸ h.stop now _
    | throwCall => exact Option.some.inj hstep ▸ h.stop now _
  | abort index => exact h.abortInput hstep
  | attemptTimer =>
    rw [StreamRun.step] at hstep
    split at hstep
    · have hfired : Inv { run with attemptArmed := false } := h.of_account rfl rfl rfl
      exact Option.some.inj hstep ▸ hfired.settleAttemptTimeout now
    · cases hstep
  | readSettles settlement =>
    rw [StreamRun.step] at hstep
    split at hstep
    · split at hstep
      · exact Option.some.inj hstep ▸ h.of_account rfl rfl rfl
      · cases hstep
    · cases hstep
  | wake =>
    rw [StreamRun.step] at hstep
    split at hstep
    · rename_i hpoint _
      exact Option.some.inj hstep ▸ (h.going_at hpoint rfl rfl).raceRead now _
    · cases hstep
  | resume => exact h.resume hsafe hstep
  | opened =>
    rw [StreamRun.step] at hstep
    split at hstep
    · rename_i hpoint
      exact Option.some.inj hstep ▸ (h.going_at hpoint rfl rfl).readNext policy now
    · cases hstep
  | openThrew error =>
    rw [StreamRun.step] at hstep
    split at hstep
    · rename_i hpoint
      exact Option.some.inj hstep ▸ inv_of_going rfl (h.going_at hpoint rfl rfl)
    · cases hstep
  | readStarted =>
    rw [StreamRun.step] at hstep
    split at hstep
    · rename_i hpoint
      exact Option.some.inj hstep ▸ (h.going_at hpoint rfl rfl).awaitRead policy now _
    · cases hstep
  | readThrew error =>
    rw [StreamRun.step] at hstep
    split at hstep
    · rename_i hpoint
      exact Option.some.inj hstep ▸ inv_of_going rfl (h.going_at hpoint rfl rfl)
    · cases hstep
  | decoded signals =>
    rw [StreamRun.step] at hstep
    split at hstep
    · rename_i hpoint
      unfold safe at hsafe
      simp only [hpoint, Bool.or_eq_true, Option.isNone_iff_eq_none, Bool.not_eq_true'] at hsafe
      exact Option.some.inj hstep ▸ (h.going_at hpoint rfl rfl).reduceAll signals hsafe
    · cases hstep
  | decodeThrew error =>
    rw [StreamRun.step] at hstep
    split at hstep
    · rename_i hpoint
      exact Option.some.inj hstep ▸ inv_of_going rfl (h.going_at hpoint rfl rfl)
    · cases hstep
  | accepted accepted =>
    rw [StreamRun.step] at hstep
    split at hstep
    · rename_i signals hpoint
      refine Option.some.inj hstep ▸ (h.going_at hpoint rfl rfl).afterAccept fun hnone => ?_
      subst hnone
      unfold safe at hsafe
      simp only [hpoint, Bool.or_eq_true, Option.isNone_iff_eq_none, Bool.not_eq_true'] at hsafe
      exact hsafe
    · cases hstep
  | classified answer =>
    rw [StreamRun.step] at hstep
    split at hstep
    · rename_i hpoint
      exact Option.some.inj hstep ▸ (h.going_at hpoint rfl rfl).providerFailure_finish now _ _
    · cases hstep

theorem Inv.events {final : StreamRun Part} (events : List (Int × StreamEvent Part)) (h : Inv run)
    (hsafe : run.runSafe json policy events = true) (hrun : run.runEvents json policy events = some final) : Inv final := by
  induction events generalizing run with
  | nil => exact Option.some.inj hrun ▸ h
  | cons event events ih =>
    rw [runSafe, Bool.and_eq_true] at hsafe
    rw [runEvents] at hrun
    obtain ⟨next, hstep, hrest⟩ := Option.bind_eq_some_iff.mp hrun
    rw [hstep, Option.all_some] at hsafe
    exact ih (h.step hsafe.1 hstep) hsafe.2 hrest

theorem inv_initial (inputs : List StreamCancellationInput) : Inv ({ inputs } : StreamRun Part) := by
  have hagrees : Agrees ([] ++ []) createInitialReducerState := runInv_initial.agrees
  have hgoing : Going [] ⟨none, createInitialReducerState, [], [], [], [], [], false, false⟩ :=
    { agrees := hagrees
      produced := List.Sublist.refl []
      quiet := rfl
      asked := fun ⟨_, hcall, _⟩ => absurd hcall List.not_mem_nil
      owed := List.prefix_refl []
      fresh := fun _ => rfl
      foreign := fun outcome houtcome => absurd houtcome.symm (Option.some_ne_none outcome) }
  exact hgoing

theorem Inv.orderly (h : Inv run) : Orderly run := by
  rw [Inv] at h
  split at h
  · rename_i hkind
    have hnever : run.point ≠ .ended := fun hended => by rw [hended] at hkind; cases hkind
    exact ⟨h.numbered, fun hended => absurd hended hnever, h.quiet, h.owed, fun hended => absurd hended hnever⟩
  · rename_i hkind
    have hnever : run.point ≠ .ended := fun hended => by rw [hended] at hkind; cases hkind
    exact ⟨h.numbered, fun hended => absurd hended hnever, h.quiet, (List.prefix_append _ _).trans h.owed,
      fun hended => absurd hended hnever⟩
  · exact ⟨h.numbered, fun _ => h.settled, h.quiet, h.owed, fun _ => h.complete⟩

end StreamRun

/-- Where the generator takes up nothing of the provider behind a settled outcome, its frames are
numbered without a gap, it ends settled, it neither reads nor hands out anything but what the settling reduction owes, and a
consumer that reads to the end of a success has all of it. -/
theorem run_orderly {Part : Type} {json : JsonCodec} {policy : StreamLifecyclePolicy} {inputs : List StreamCancellationInput}
    {events : List (Int × StreamEvent Part)} {run : StreamRun Part}
    (hrun : StreamRun.runEvents json policy { inputs } events = some run)
    (hsafe : StreamRun.runSafe json policy { inputs } events = true) : Orderly run :=
  ((StreamRun.inv_initial inputs).events events hsafe hrun).orderly

/-! ## A stream to its end, and a part behind a cancellation -/

def noJson : JsonCodec := ⟨fun _ => none, fun _ => none⟩

/-- The generator is started and asks for the first part. -/
def startsReading : List (Int × StreamEvent Unit) := [(0, .call .nextCall), (0, .resume), (0, .opened), (0, .readStarted)]

def deliversPart : List (Int × StreamEvent Unit) := [(1, .readSettles (.result (.value ()))), (1, .wake)]

def asksOn : List (Int × StreamEvent Unit) := [(2, .call .nextCall), (2, .resume)]

def wholeStream : List (Int × StreamEvent Unit) :=
  startsReading ++ deliversPart ++
  [(1, .resume), (1, .decoded [.protocol (.textContent none (js "a")), .protocol (.textContent none (js "b"))])] ++
  asksOn ++ asksOn ++ asksOn ++ asksOn ++ [(2, .readStarted)] ++ deliversPart ++
  [(3, .resume), (3, .decoded [.protocol (.stepFinish (some .stop) none)])] ++ asksOn ++ asksOn

theorem run_orderly_whole : ∃ run, StreamRun.runEvents noJson {} {} wholeStream = some run ∧
    run.handed.length = 6 ∧ run.outcome.any StreamOutcome.succeeded = true ∧ Orderly run := by
  have hshape : (StreamRun.runEvents noJson {} {} wholeStream).map
      (fun run => (run.handed.length, run.outcome.any StreamOutcome.succeeded)) = some (6, true) := by decide
  obtain ⟨run, hrun, heq⟩ := Option.map_eq_some_iff.mp hshape
  obtain ⟨hlength, hsucceeded⟩ := Prod.mk.inj heq
  exact ⟨run, hrun, hlength, hsucceeded, run_orderly hrun (by decide)⟩

/-- The input of the user aborts when the race has delivered the part and the generator has not taken it up. -/
def lateAbort : List (Int × StreamEvent Unit) :=
  startsReading ++ deliversPart ++ [(1, .abort 0), (1, .resume), (1, .decoded [.protocol (.textContent none (js "a"))])]

/-- The part is decoded and a frame handed out, though the outcome was settled. -/
theorem lateAbort_hands_out : ∃ run, StreamRun.runEvents noJson {} { inputs := [⟨.user, false⟩] } lateAbort = some run ∧
    run.outcome.isSome ∧ run.overran = true ∧ run.owed = [] ∧ run.late.length = 1 ∧ ¬ Orderly run := by
  have hshape : (StreamRun.runEvents noJson {} { inputs := [⟨.user, false⟩] } lateAbort).map
      (fun run => (run.outcome.isSome, run.overran, run.owed.isEmpty, run.late.length)) = some (true, true, true, 1) := by
    decide
  obtain ⟨run, hrun, heq⟩ := Option.map_eq_some_iff.mp hshape
  simp only [Prod.mk.injEq, List.isEmpty_iff] at heq
  obtain ⟨hsettled, hoverran, howed, hlate⟩ := heq
  exact ⟨run, hrun, hsettled, hoverran, howed, hlate, fun h => Bool.false_ne_true (h.quiet.symm.trans hoverran)⟩

end Veryfront.Agent.Streaming
