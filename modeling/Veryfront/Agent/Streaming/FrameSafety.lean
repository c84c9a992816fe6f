import Veryfront.Agent.Streaming.Projection

/-!
# Every stream is well formed

The run of the reducer over any signals, and what its frames and its snapshot promise a client.
-/

namespace Veryfront.Agent.Streaming

open Veryfront.Lib

/-! ## Text ids are fresh -/

theorem codeUnitsOf_digit {c : Char} (h : c.isDigit = true) :
    (codeUnitsOf c).map (fun u => Char.ofNat u.toNat) = [c] := by
  have hbounds : 48 ≤ c.toNat ∧ c.toNat ≤ 57 := by
    rw [Char.isDigit, Bool.and_eq_true, decide_eq_true_eq, decide_eq_true_eq] at h
    exact ⟨UInt32.le_iff_toNat_le.mp h.1, UInt32.le_iff_toNat_le.mp h.2⟩
  have hsmall : c.toNat < 0x10000 := by omega
  have hunit : (c.toNat.toUInt16).toNat = c.toNat := by
    rw [Nat.toUInt16_eq, UInt16.toNat_ofNat']
    exact Nat.mod_eq_of_lt hsmall
  rw [codeUnitsOf, if_pos hsmall, List.map_singleton, hunit, Char.ofNat_toNat]

theorem digits_of_js (n : Nat) : (js (toString n)).map (fun u => Char.ofNat u.toNat) = Nat.toDigits 10 n := by
  have hdigits : ∀ c ∈ Nat.toDigits 10 n, (codeUnitsOf c).map (fun u => Char.ofNat u.toNat) = [c] :=
    fun c hc => codeUnitsOf_digit (Nat.isDigit_of_mem_toDigits (by decide) (by decide) hc)
  show ((Nat.repr n).toList.flatMap codeUnitsOf).map _ = _
  rw [Nat.toList_repr, List.map_flatMap, List.flatMap_congr hdigits, List.flatMap_singleton']

theorem textId_injective : Function.Injective textId := by
  intro m n h
  have hjs : js (toString m) = js (toString n) := List.append_cancel_left h
  rw [← Nat.ofDigitChars_ten_toDigits (n := m), ← digits_of_js m, hjs, digits_of_js, Nat.ofDigitChars_ten_toDigits]

theorem Agrees.starts_nodup {frames : List StreamLifecycleFrame} {state : StreamReducerState} (h : Agrees frames state) :
    (textStarts (frames.map StreamLifecycleFrame.body)).Nodup := by
  rw [h.started]
  exact List.nodup_range.map textId_injective

/-! ## The snapshot's tools -/

def Synced (state : StreamReducerState) : Prop := state.snapshot.tools = state.tools.values

section
variable {d : StreamReduction} {elapsedMs : Int}

theorem synced_closeReasoning (h : Synced d.state) : Synced (d.closeReasoning elapsedMs).state := by
  unfold StreamReduction.closeReasoning
  split <;> exact h

theorem synced_closeText (h : Synced d.state) : Synced (d.closeText elapsedMs).state := by
  unfold StreamReduction.closeText
  split <;> exact h

theorem synced_recordProgress (h : Synced d.state) : Synced (recordProgress d).state := by
  unfold recordProgress
  split <;> exact h

theorem synced_reduceReasoningContent (id delta : JsText) (h : Synced d.state) :
    Synced (reduceReasoningContent elapsedMs id delta d).state := by
  unfold reduceReasoningContent
  have hopen : Synced (if (d.closeText elapsedMs).state.activeReasoningId = some id then d.closeText elapsedMs
      else ((((d.closeText elapsedMs).closeReasoning elapsedMs).openReasoning id).emit elapsedMs
        (.semantic (.reasoningStart id))).emit elapsedMs (.protocolRepair .implicitReasoningStart)).state := by
    split
    · exact synced_closeText h
    · have hclosed : Synced ((d.closeText elapsedMs).closeReasoning elapsedMs).state := synced_closeReasoning (synced_closeText h)
      exact hclosed
  dsimp only
  split <;> exact hopen

theorem synced_reduceTextContent (delta : JsText) (h : Synced d.state) :
    Synced (reduceTextContent elapsedMs delta d).state := by
  unfold reduceTextContent
  have hopen : Synced (if (d.closeReasoning elapsedMs).state.activeTextId.isSome then d.closeReasoning elapsedMs
      else ((d.closeReasoning elapsedMs).openText elapsedMs).emit elapsedMs (.protocolRepair .implicitTextStart)).state := by
    split
    · exact synced_closeReasoning h
    · have hclosed : Synced (d.closeReasoning elapsedMs).state := synced_closeReasoning h
      exact hclosed
  dsimp only
  split <;> exact hopen

theorem synced_finishStep (json : JsonCodec) (recover : Bool) (reason : Option FinishReason) (metadata : Option JsValue)
    (h : Synced d.state) : Synced (finishStep json elapsedMs recover reason metadata d).state := by
  unfold finishStep
  have hcommitted : Synced (if reason = some .toolCalls then
      commitPendingLocalInputs json elapsedMs (d.closeOpenContent elapsedMs)
      else d.closeOpenContent elapsedMs).state := by
    split
    · exact rfl
    · exact synced_closeText (synced_closeReasoning h)
  exact hcommitted

theorem synced_reduceProtocolEvent (json : JsonCodec) (recover : Bool) (event : StreamProtocolEvent) (h : Synced d.state) :
    Synced (reduceProtocolEvent json elapsedMs recover event d).state := by
  cases event with
  | messageStart => exact h
  | stepStart => exact h
  | textStart =>
    have hclosed : Synced ((d.closeReasoning elapsedMs).closeText elapsedMs).state := synced_closeText (synced_closeReasoning h)
    exact hclosed
  | textContent _ delta => exact synced_reduceTextContent delta h
  | textEnd => exact synced_closeText h
  | reasoningStart =>
    have hclosed : Synced ((d.closeText elapsedMs).closeReasoning elapsedMs).state := synced_closeReasoning (synced_closeText h)
    exact hclosed
  | reasoningContent id delta => exact synced_reduceReasoningContent id delta h
  | reasoningEnd =>
    simp only [reduceProtocolEvent, reduceReasoningEnd]
    split <;> exact h
  | toolInputStart => rfl
  | toolInputContent =>
    simp only [reduceProtocolEvent, appendToolInput]
    split
    · exact h
    · split
      · exact h
      · rfl
  | toolInputReady => rfl
  | toolInputRejected => rfl
  | providerToolStart =>
    simp only [reduceProtocolEvent, startProviderTool]
    split
    · exact h
    · split
      · exact h
      · rfl
  | providerToolResult | providerToolDenied | providerToolCancelled =>
    simp only [reduceProtocolEvent, endProviderTool]
    split
    · exact h
    · split
      · exact h
      · split
        · exact h
        · rfl
  | stepFinish => exact synced_finishStep json recover _ _ h
  | custom =>
    simp only [reduceProtocolEvent, reduceCustom]
    split
    · split <;> exact h
    · exact h

end

/-! ## The frames of one event -/

/-- What the reducer may emit besides the event it was given. -/
def isDerived : FrameBody → Bool
  | .semantic (.textStart _) | .semantic (.textEnd _) => true
  | .semantic (.reasoningStart _) | .semantic (.reasoningEnd ..) => true
  | .semantic _ => false
  | _ => true

/-- What the end of a step may emit for the inputs that are still open. -/
def isCommit : FrameBody → Bool
  | .semantic (.toolInputReady ..) | .semantic (.toolInputRejected ..) => true
  | _ => false

def Emits (P : FrameBody → Prop) (d e : StreamReduction) : Prop :=
  ∃ new, e.frames = d.frames ++ new ∧ ∀ frame ∈ new, P frame.body

section
variable {P : FrameBody → Prop} {d e f : StreamReduction}

theorem Emits.of_frames (h : e.frames = d.frames) : Emits P d e := ⟨[], by rw [h, List.append_nil], by simp⟩

theorem Emits.refl : Emits P d d := .of_frames rfl

theorem Emits.trans (h : Emits P d e) (g : Emits P e f) : Emits P d f := by
  obtain ⟨first, hfirst, hP⟩ := h
  obtain ⟨second, hsecond, hP'⟩ := g
  refine ⟨first ++ second, by rw [hsecond, hfirst, List.append_assoc], fun frame hframe => ?_⟩
  exact (List.mem_append.mp hframe).elim (hP frame) (hP' frame)

variable (d) (elapsedMs : Int)

theorem emits_emit {body : FrameBody} (hbody : P body) : Emits P d (d.emit elapsedMs body) :=
  ⟨[_], rfl, fun frame hframe => by rw [List.mem_singleton.mp hframe]; exact hbody⟩

theorem Emits.emit {body : FrameBody} (h : Emits P d e) (hbody : P body) : Emits P d (e.emit elapsedMs body) :=
  h.trans (emits_emit e elapsedMs hbody)

section
variable (hP : ∀ body, isDerived body = true → P body)
include hP

theorem emits_closeReasoning : Emits P d (d.closeReasoning elapsedMs) := by
  unfold StreamReduction.closeReasoning
  split
  · exact .refl
  · exact emits_emit d elapsedMs (hP _ rfl)

theorem emits_closeText : Emits P d (d.closeText elapsedMs) := by
  unfold StreamReduction.closeText
  split
  · exact .refl
  · exact emits_emit d elapsedMs (hP _ rfl)

theorem emits_closeOpenContent : Emits P d (d.closeOpenContent elapsedMs) :=
  (emits_closeReasoning d elapsedMs hP).trans (emits_closeText _ elapsedMs hP)

theorem emits_failProtocol : Emits P d (d.failProtocol elapsedMs) := emits_emit _ elapsedMs (hP _ rfl)

section
variable (hcommit : ∀ body, isCommit body = true → P body)
include hcommit

omit hP in
theorem emits_commitPendingInput (json : JsonCodec) (entry : JsText × StreamToolSnapshot) :
    Emits P d (commitPendingInput json elapsedMs d entry) := by
  unfold commitPendingInput
  dsimp only
  split
  · exact .refl
  · split
    · exact emits_emit _ elapsedMs (hcommit _ rfl)
    · exact emits_emit _ elapsedMs (hcommit _ rfl)

omit hP in
theorem emits_commitPendingInputs (json : JsonCodec) (entries : List (JsText × StreamToolSnapshot)) :
    Emits P d (entries.foldl (commitPendingInput json elapsedMs) d) := by
  induction entries generalizing d with
  | nil => exact .refl
  | cons entry entries ih => exact (emits_commitPendingInput d elapsedMs hcommit json entry).trans (ih _)

theorem emits_finishStep (json : JsonCodec) (recover : Bool) (reason : Option FinishReason) (metadata : Option JsValue) :
    ∃ e, Emits P d e ∧ (finishStep json elapsedMs recover reason metadata d).frames =
      e.frames ++ [⟨e.state.sequence + 1, elapsedMs, .semantic (.stepFinish reason metadata)⟩] := by
  refine ⟨if reason = some .toolCalls then commitPendingLocalInputs json elapsedMs (d.closeOpenContent elapsedMs)
    else d.closeOpenContent elapsedMs, ?_, rfl⟩
  split
  · exact (emits_closeOpenContent d elapsedMs hP).trans (emits_commitPendingInputs _ elapsedMs hcommit json _)
  · exact emits_closeOpenContent d elapsedMs hP

end

theorem emits_reduceTextContent (delta : JsText) :
    ∃ e, Emits P d e ∧ (reduceTextContent elapsedMs delta d).frames =
      (e.emit elapsedMs (.semantic (.textContent e.state.activeTextId delta))).frames := by
  unfold reduceTextContent
  refine ⟨if (d.closeReasoning elapsedMs).state.activeTextId.isSome then d.closeReasoning elapsedMs
    else ((d.closeReasoning elapsedMs).openText elapsedMs).emit elapsedMs (.protocolRepair .implicitTextStart), ?_, ?_⟩
  · split
    · exact emits_closeReasoning d elapsedMs hP
    · refine (emits_closeReasoning d elapsedMs hP).trans ?_
      exact Emits.emit _ elapsedMs (emits_emit _ elapsedMs (hP _ rfl)) (hP _ rfl)
  · dsimp only
    split <;> rfl

theorem emits_reduceReasoningContent (id delta : JsText) :
    ∃ e, Emits P d e ∧ (reduceReasoningContent elapsedMs id delta d).frames =
      (e.emit elapsedMs (.semantic (.reasoningContent id delta))).frames := by
  unfold reduceReasoningContent
  refine ⟨if (d.closeText elapsedMs).state.activeReasoningId = some id then d.closeText elapsedMs
    else ((((d.closeText elapsedMs).closeReasoning elapsedMs).openReasoning id).emit elapsedMs
      (.semantic (.reasoningStart id))).emit elapsedMs (.protocolRepair .implicitReasoningStart), ?_, ?_⟩
  · split
    · exact emits_closeText d elapsedMs hP
    · refine ((emits_closeText d elapsedMs hP).trans (emits_closeReasoning _ elapsedMs hP)).trans ?_
      exact Emits.emit _ elapsedMs (emits_emit _ elapsedMs (hP _ rfl)) (hP _ rfl)
  · dsimp only
    split <;> rfl

variable {event : StreamProtocolEvent} (hevent : P (.semantic event))
include hevent

theorem emits_toolTransition (id : JsText) :
    Emits P d (endProviderTool elapsedMs id event d) ∧ Emits P d (startProviderTool elapsedMs id event d) := by
  constructor
  · unfold endProviderTool
    split
    · exact emits_failProtocol d elapsedMs hP
    · split
      · exact emits_failProtocol d elapsedMs hP
      · split
        · exact emits_emit _ elapsedMs hevent
        · exact emits_emit _ elapsedMs hevent
  · unfold startProviderTool
    split
    · exact emits_failProtocol d elapsedMs hP
    · split
      · exact emits_failProtocol d elapsedMs hP
      · exact emits_emit _ elapsedMs hevent

theorem emits_reduceProtocolEvent (json : JsonCodec) (recover : Bool)
    (htext : ∀ id delta, event = .textContent id delta → ∀ openId, P (.semantic (.textContent openId delta)))
    (hstart : ∀ id name input providerExecuted dynamic announced,
      event = .toolInputReady id name input providerExecuted dynamic announced →
      ∀ flag, P (.semantic (.toolInputStart id name providerExecuted flag false)))
    (hstep : ∀ reason metadata, event ≠ .stepFinish reason metadata) :
    Emits P d (reduceProtocolEvent json elapsedMs recover event d) := by
  cases event with
  | messageStart => exact emits_emit d elapsedMs hevent
  | stepStart => exact emits_emit d elapsedMs hevent
  | textStart =>
    have hclosed := (emits_closeReasoning d elapsedMs hP).trans (emits_closeText _ elapsedMs hP)
    exact hclosed.trans (emits_emit _ elapsedMs (hP _ rfl))
  | textContent id delta =>
    obtain ⟨e, he, hframes⟩ := emits_reduceTextContent d elapsedMs hP delta
    exact he.trans (.trans (emits_emit e elapsedMs (htext id delta rfl _)) (.of_frames hframes))
  | textEnd => exact emits_closeText d elapsedMs hP
  | reasoningStart =>
    have hclosed := (emits_closeText d elapsedMs hP).trans (emits_closeReasoning _ elapsedMs hP)
    exact hclosed.trans (emits_emit _ elapsedMs hevent)
  | reasoningContent id delta =>
    obtain ⟨e, he, hframes⟩ := emits_reduceReasoningContent d elapsedMs hP id delta
    exact he.trans (.trans (emits_emit e elapsedMs hevent) (.of_frames hframes))
  | reasoningEnd =>
    simp only [reduceProtocolEvent, reduceReasoningEnd]
    split
    · exact .refl
    · exact emits_emit _ elapsedMs hevent
  | toolInputStart => exact (emits_closeOpenContent d elapsedMs hP).trans (emits_emit _ elapsedMs hevent)
  | toolInputContent =>
    simp only [reduceProtocolEvent, appendToolInput]
    split
    · exact emits_failProtocol d elapsedMs hP
    · split
      · exact emits_failProtocol d elapsedMs hP
      · exact emits_emit _ elapsedMs hevent
  | toolInputReady =>
    simp only [reduceProtocolEvent, readyToolInput]
    refine Emits.trans ?_ (emits_emit _ elapsedMs hevent)
    show Emits P d (if _ then _ else _)
    split
    · exact .refl
    · exact Emits.emit _ elapsedMs (emits_emit _ elapsedMs (hstart _ _ _ _ _ _ rfl _)) (hP _ rfl)
  | toolInputRejected => exact emits_emit _ elapsedMs hevent
  | providerToolStart => exact (emits_toolTransition d elapsedMs hP hevent _).2
  | providerToolResult | providerToolDenied | providerToolCancelled =>
    exact (emits_toolTransition d elapsedMs hP hevent _).1
  | stepFinish reason metadata => exact absurd rfl (hstep reason metadata)
  | custom =>
    simp only [reduceProtocolEvent, reduceCustom]
    split
    · split
      · exact emits_emit _ elapsedMs (hP _ rfl)
      · exact .refl
    · exact emits_emit _ elapsedMs hevent

end

end

/-! ## Runs -/

/-- One call of the reducer, with its clock and its option. -/
structure SignalCall where
  signal : StreamSignal
  elapsedMs : Int := 0
  recoverUnavailableToolCalls : Bool := false

/-- The signals folded from a state; `none` when one of the calls throws. -/
def reduceSignals (json : JsonCodec) : StreamReducerState → List SignalCall → Option (StreamReducerState × List StreamLifecycleFrame)
  | state, [] => some (state, [])
  | state, call :: calls => do
    let reduction ← reduceStreamSignal json call.elapsedMs call.recoverUnavailableToolCalls state call.signal
    let (final, frames) ← reduceSignals json reduction.state calls
    some (final, reduction.frames ++ frames)

def isStepFinish : FrameBody → Bool
  | .semantic (.stepFinish ..) => true
  | _ => false

theorem not_isStepFinish_of_derived {body : FrameBody} (h : isDerived body = true) : isStepFinish body = false := by
  cases body with
  | semantic event => cases event <;> first | rfl | cases h
  | _ => rfl

theorem not_isStepFinish_of_commit {body : FrameBody} (h : isCommit body = true) : isStepFinish body = false := by
  cases body with
  | semantic event => cases event <;> first | rfl | cases h
  | _ => rfl

structure Finished (bodies : List FrameBody) (state : StreamReducerState) : Prop where
  last : bodies.Pairwise fun earlier later => isStepFinish earlier = true → later = .providerPartRejected
  closed : ∀ body ∈ bodies, isStepFinish body = true → state.terminal = true ∧ openSegment state = none

/-- What holds between two calls of the reducer. -/
structure RunInv (frames : List StreamLifecycleFrame) (state : StreamReducerState) : Prop where
  agrees : Agrees frames state
  synced : Synced state
  finished : Finished (frames.map StreamLifecycleFrame.body) state

theorem runInv_initial : RunInv [] createInitialReducerState where
  agrees := ⟨rfl, rfl, rfl, .inl rfl, rfl, rfl, fun _ => rfl, List.nodup_nil⟩
  synced := rfl
  finished := ⟨List.Pairwise.nil, by simp⟩

section
variable {json : JsonCodec} {elapsedMs : Int} {recover : Bool} {state : StreamReducerState}
  {frames : List StreamLifecycleFrame}

theorem reduceStreamSignal_terminal (h : state.terminal = true) (signal : StreamSignal) :
    reduceStreamSignal json elapsedMs recover state signal =
      some ⟨{ state with sequence := state.sequence + 1 }, [⟨state.sequence + 1, elapsedMs, .providerPartRejected⟩], false⟩ := by
  unfold reduceStreamSignal
  exact if_pos h

theorem openSegment_recordProgress (d : StreamReduction) : openSegment (recordProgress d).state = openSegment d.state :=
  (quiet_recordProgress d).openSegment

theorem terminal_recordProgress (d : StreamReduction) : (recordProgress d).state.terminal = d.state.terminal := by
  unfold recordProgress
  split <;> rfl

theorem frames_recordProgress (d : StreamReduction) : (recordProgress d).frames = d.frames := by
  unfold recordProgress
  split <;> rfl

variable {bodies : List FrameBody}

theorem finished_live (h : Finished bodies state) (hlive : state.terminal ≠ true) :
    ∀ body ∈ bodies, isStepFinish body = false :=
  fun body hbody => Bool.eq_false_iff.mpr fun hfinish => hlive (h.closed body hbody hfinish).1

theorem finished_of_none (h : ∀ body ∈ bodies, isStepFinish body = false) : Finished bodies state where
  last := List.Pairwise.imp_of_mem (fun ha _ _ hfinish => absurd hfinish (by rw [h _ ha]; decide))
    (List.pairwise_of_forall fun _ _ => trivial)
  closed body hbody hfinish := absurd hfinish (by rw [h body hbody]; decide)

theorem finished_snoc {body : FrameBody} (h : ∀ body ∈ bodies, isStepFinish body = false)
    (hclosed : state.terminal = true ∧ openSegment state = none) : Finished (bodies ++ [body]) state where
  last := by
    have hbefore : Finished bodies state := finished_of_none h
    refine List.pairwise_append.mpr ⟨hbefore.last, List.pairwise_singleton .., ?_⟩
    intro earlier hearlier _ _ hfinish
    exact absurd hfinish (by rw [h earlier hearlier]; decide)
  closed _ _ _ := hclosed

theorem finished_reduceProtocolEvent (event : StreamProtocolEvent) (h : Finished (frames.map StreamLifecycleFrame.body) state)
    (hlive : state.terminal ≠ true) :
    Finished ((frames ++ (reduceProtocolEvent json elapsedMs recover event { state }).frames).map StreamLifecycleFrame.body)
      (reduceProtocolEvent json elapsedMs recover event { state }).state := by
  have hold := finished_live h hlive
  by_cases hstep : ∃ reason metadata, event = .stepFinish reason metadata
  · obtain ⟨reason, metadata, rfl⟩ := hstep
    obtain ⟨e, ⟨new, hnew, hnone⟩, hframes⟩ := emits_finishStep (P := fun body => isStepFinish body = false) { state }
      elapsedMs (fun _ => not_isStepFinish_of_derived) (fun _ => not_isStepFinish_of_commit) json recover reason metadata
    have hfinish : (reduceProtocolEvent json elapsedMs recover (.stepFinish reason metadata) { state }).frames = _ := hframes
    rw [hfinish, hnew, List.nil_append, ← List.append_assoc, List.map_append]
    refine finished_snoc ?_ ⟨rfl, ?_⟩
    · intro body hbody
      rw [List.map_append, List.mem_append] at hbody
      refine hbody.elim (hold body) fun hmem => ?_
      obtain ⟨frame, hframe, rfl⟩ := List.mem_map.mp hmem
      exact hnone frame hframe
    · show openSegment (if reason = some .toolCalls then _ else _ : StreamReduction).state = none
      split
      · exact (quiet_commitPendingLocalInputs _ elapsedMs json).openSegment.trans closeOpenContent_closed
      · exact closeOpenContent_closed
  · have hne : ∀ reason metadata, event ≠ .stepFinish reason metadata := fun reason metadata he => hstep ⟨reason, metadata, he⟩
    have hself : isStepFinish (.semantic event) = false := by
      cases event <;> first | rfl | exact absurd rfl (hne _ _)
    obtain ⟨new, hnew, hnone⟩ := emits_reduceProtocolEvent (P := fun body => isStepFinish body = false) { state } elapsedMs
      (fun _ => not_isStepFinish_of_derived) hself json recover (fun _ _ _ _ => rfl)
      (fun _ _ _ _ _ _ _ _ => rfl) hne
    refine finished_of_none fun body hbody => ?_
    rw [hnew, List.nil_append, List.map_append, List.mem_append] at hbody
    refine hbody.elim (hold body) fun hmem => ?_
    obtain ⟨frame, hframe, rfl⟩ := List.mem_map.mp hmem
    exact hnone frame hframe

theorem sound_start (h : Agrees frames state) : Sound frames { state } := by
  unfold Sound
  rw [List.append_nil]
  exact h

theorem agrees_reduceStreamSignal {signal : StreamSignal} {d : StreamReduction} (h : Agrees frames state)
    (hd : reduceStreamSignal json elapsedMs recover state signal = some d) : Agrees (frames ++ d.frames) d.state := by
  have hstart := sound_start h
  by_cases hterm : state.terminal = true
  · rw [reduceStreamSignal_terminal hterm] at hd
    obtain rfl := Option.some.inj hd
    exact sound_neutral hstart rfl
  · simp only [reduceStreamSignal, if_neg hterm] at hd
    cases signal with
    | usage usage =>
      obtain rfl := Option.some.inj hd
      exact (Quiet.trans (quiet_setSnapshot _ rfl rfl) (quiet_emit _ elapsedMs rfl)).sound _ hstart
    | providerError | diagnosticCandidate =>
      obtain rfl := Option.some.inj hd
      exact hstart
    | protocol event =>
      dsimp only at hd
      split at hd
      · cases hd
      · obtain rfl := Option.some.inj hd
        exact (quiet_recordProgress _).sound _ (sound_reduceProtocolEvent elapsedMs json recover event hstart)

theorem finished_rejected (h : Finished (frames.map StreamLifecycleFrame.body) state) (elapsedMs : Int) :
    Finished (List.map StreamLifecycleFrame.body (frames ++ [⟨state.sequence + 1, elapsedMs, .providerPartRejected⟩]))
      { state with sequence := state.sequence + 1 } := by
  constructor
  · rw [List.map_append]
    refine List.pairwise_append.mpr ⟨h.last, List.pairwise_singleton .., ?_⟩
    intro _ _ later hlater _
    exact List.mem_singleton.mp hlater
  · intro body hbody hfinish
    rw [List.map_append, List.mem_append] at hbody
    refine hbody.elim (fun hmem => h.closed body hmem hfinish) fun hmem => ?_
    rw [List.mem_singleton.mp hmem] at hfinish
    cases hfinish

theorem runInv_rejected (h : RunInv frames state) (elapsedMs : Int) :
    RunInv (frames ++ [⟨state.sequence + 1, elapsedMs, .providerPartRejected⟩]) { state with sequence := state.sequence + 1 } :=
  ⟨sound_neutral (sound_start h.agrees) rfl, h.synced, finished_rejected h.finished elapsedMs⟩

theorem runInv_step {signal : StreamSignal} {d : StreamReduction} (h : RunInv frames state)
    (hd : reduceStreamSignal json elapsedMs recover state signal = some d) : RunInv (frames ++ d.frames) d.state := by
  have hagrees := agrees_reduceStreamSignal h.agrees hd
  by_cases hterm : state.terminal = true
  · rw [reduceStreamSignal_terminal hterm] at hd
    obtain rfl := Option.some.inj hd
    exact runInv_rejected h elapsedMs
  · simp only [reduceStreamSignal, if_neg hterm] at hd
    cases signal with
    | usage usage =>
      obtain rfl := Option.some.inj hd
      refine ⟨hagrees, h.synced, finished_of_none fun body hbody => ?_⟩
      rw [List.map_append, List.mem_append] at hbody
      refine hbody.elim (finished_live h.finished hterm body) fun hmem => ?_
      rw [List.mem_singleton.mp hmem]
      rfl
    | providerError | diagnosticCandidate =>
      obtain rfl := Option.some.inj hd
      rw [List.append_nil]
      exact h
    | protocol event =>
      dsimp only at hd
      split at hd
      · cases hd
      · obtain rfl := Option.some.inj hd
        refine ⟨hagrees, synced_recordProgress (synced_reduceProtocolEvent json recover event h.synced), ?_⟩
        have hfinished : Finished ((frames ++ (reduceProtocolEvent json elapsedMs recover event { state }).frames).map
            StreamLifecycleFrame.body) (reduceProtocolEvent json elapsedMs recover event { state }).state :=
          finished_reduceProtocolEvent event h.finished hterm
        rw [frames_recordProgress]
        refine ⟨hfinished.last, fun body hbody hfinish => ?_⟩
        rw [terminal_recordProgress, openSegment_recordProgress]
        exact hfinished.closed body hbody hfinish

theorem runInv_run (calls : List SignalCall) {prior : List StreamLifecycleFrame} {final : StreamReducerState}
    (h : RunInv prior state) (hrun : reduceSignals json state calls = some (final, frames)) : RunInv (prior ++ frames) final := by
  induction calls generalizing state prior frames with
  | nil =>
    obtain ⟨rfl, rfl⟩ := Prod.mk.inj (Option.some.inj hrun)
    rw [List.append_nil]
    exact h
  | cons call calls ih =>
    simp only [reduceSignals, Option.bind_eq_bind, Option.bind_eq_some_iff] at hrun
    obtain ⟨d, hd, ⟨last, rest⟩, hrest, heq⟩ := hrun
    obtain ⟨rfl, rfl⟩ := Prod.mk.inj (Option.some.inj heq)
    rw [← List.append_assoc]
    exact ih (runInv_step h hd) hrest

end

/-! ## The promises -/

structure WellFormed (frames : List StreamLifecycleFrame) (snapshot : StreamSnapshot) : Prop where
  numbered : frames.map StreamLifecycleFrame.sequence = List.range' 1 frames.length
  bracketed : segmentsAfter (frames.map StreamLifecycleFrame.body) = some none
  fresh : (textStarts (frames.map StreamLifecycleFrame.body)).Nodup
  text : (textDeltas (frames.map StreamLifecycleFrame.body)).flatten = snapshot.accumulatedText
  reasoning : ∀ id, (reasoningDeltas id (frames.map StreamLifecycleFrame.body)).flatten = partText id snapshot.reasoning
  parts : (snapshot.reasoning.map ReasoningPart.id).Nodup
  finished : ∀ before reason metadata between after,
    frames.map StreamLifecycleFrame.body = before ++ .semantic (.stepFinish reason metadata) :: (between ++ after) →
    segmentsAfter (before ++ .semantic (.stepFinish reason metadata) :: between) = some none

theorem segmentsAfter_front {before after : List FrameBody} {current : Option Segment}
    (h : segmentsAfter (before ++ after) = some current) :
    ∃ middle, segmentsAfter before = some middle ∧ after.foldlM segmentStep middle = some current := by
  rw [segmentsAfter, List.foldlM_append] at h
  exact Option.bind_eq_some_iff.mp h

theorem segments_rejected {bodies : List FrameBody} (h : ∀ body ∈ bodies, body = .providerPartRejected)
    (current : Option Segment) : bodies.foldlM segmentStep current = some current := by
  induction bodies with
  | nil => rfl
  | cons body bodies ih =>
    rw [h body List.mem_cons_self, List.foldlM_cons]
    exact ih fun body hbody => h body (List.mem_cons_of_mem _ hbody)

theorem closed_after_stepFinish {before between : List FrameBody} {reason : Option FinishReason} {metadata : Option JsValue}
    {current : Option Segment} (hrejected : ∀ body ∈ between, body = .providerPartRejected)
    (h : segmentsAfter (before ++ [.semantic (.stepFinish reason metadata)]) = some current) :
    segmentsAfter (before ++ .semantic (.stepFinish reason metadata) :: between) = some none := by
  have hnone : current = none := by
    obtain ⟨middle, -, hstep⟩ := segmentsAfter_front h
    rw [List.foldlM_cons] at hstep
    obtain ⟨next, hnext, hcurrent⟩ := Option.bind_eq_some_iff.mp hstep
    obtain rfl : next = current := Option.some.inj hcurrent
    change (if middle = none then some none else none) = some next at hnext
    split at hnext
    · exact (Option.some.inj hnext).symm
    · cases hnext
  rw [show before ++ FrameBody.semantic (.stepFinish reason metadata) :: between =
    (before ++ [.semantic (.stepFinish reason metadata)]) ++ between by simp]
  rw [segmentsAfter, List.foldlM_append]
  show (segmentsAfter _).bind _ = _
  rw [h, hnone]
  exact segments_rejected hrejected none

theorem wellFormed_finalized {frames : List StreamLifecycleFrame} {state : StreamReducerState} (h : RunInv frames state)
    (elapsedMs : Int) :
    WellFormed (frames ++ (finalizeStreamProjection elapsedMs state).frames) (finalizeStreamProjection elapsedMs state).state.snapshot := by
  have hstart := sound_start h.agrees
  have hsound : Agrees (frames ++ (finalizeStreamProjection elapsedMs state).frames)
      (finalizeStreamProjection elapsedMs state).state := by
    exact sound_closeOpenContent hstart
  have hnone : openSegment (finalizeStreamProjection elapsedMs state).state = none := closeOpenContent_closed
  have hbracketed := hnone ▸ hsound.bracketed
  refine ⟨hsound.numbered, hbracketed, hsound.starts_nodup, hsound.text, hsound.reasoning, hsound.parts, ?_⟩
  intro before reason metadata between after heq
  have hlast : (frames.map StreamLifecycleFrame.body ++
      (finalizeStreamProjection elapsedMs state).frames.map StreamLifecycleFrame.body).Pairwise
      fun earlier later => isStepFinish earlier = true → later = .providerPartRejected := by
    by_cases hfinish : ∃ body ∈ frames.map StreamLifecycleFrame.body, isStepFinish body = true
    · obtain ⟨body, hbody, hstep⟩ := hfinish
      have hframes : (finalizeStreamProjection elapsedMs state).frames = [] := by
        have hopen := (h.finished.closed body hbody hstep).2
        unfold openSegment at hopen
        split at hopen
        · cases hopen
        · rename_i ht
          have hr : state.activeReasoningId = none := Option.map_eq_none_iff.mp hopen
          simp only [finalizeStreamProjection, StreamReduction.closeOpenContent, StreamReduction.closeReasoning, hr,
            StreamReduction.closeText, ht]
      rw [hframes, List.map_nil, List.append_nil]
      exact h.finished.last
    · have hold : ∀ body ∈ frames.map StreamLifecycleFrame.body, isStepFinish body = false :=
        fun body hbody => Bool.eq_false_iff.mpr fun hstep => hfinish ⟨body, hbody, hstep⟩
      obtain ⟨new, hnew, hderived⟩ := emits_closeOpenContent (P := fun body => isDerived body = true) { state } elapsedMs
        fun _ h => h
      have hnone : ∀ body ∈ frames.map StreamLifecycleFrame.body ++
          (finalizeStreamProjection elapsedMs state).frames.map StreamLifecycleFrame.body, isStepFinish body = false := by
        intro body hbody
        refine (List.mem_append.mp hbody).elim (hold body) fun hmem => ?_
        obtain ⟨frame, hframe, rfl⟩ := List.mem_map.mp hmem
        rw [finalizeStreamProjection, hnew, List.nil_append] at hframe
        exact not_isStepFinish_of_derived (hderived frame hframe)
      have hfinished : Finished _ state := finished_of_none hnone
      exact hfinished.last
  rw [← List.map_append, heq] at hlast
  have hrejected := (List.pairwise_cons.mp (List.pairwise_append.mp hlast).2.1).1
  rw [heq, show before ++ FrameBody.semantic (.stepFinish reason metadata) :: (between ++ after) =
    (before ++ [.semantic (.stepFinish reason metadata)]) ++ (between ++ after) by simp] at hbracketed
  obtain ⟨middle, hmiddle, -⟩ := segmentsAfter_front hbracketed
  exact closed_after_stepFinish (fun body hbody => hrejected body (List.mem_append_left _ hbody) rfl) hmiddle

/-- Whatever the provider sends, the frames are numbered and bracketed and carry the content of the snapshot, the two
views of the tools agree, and a terminal state only rejects. -/
theorem stream_well_formed (json : JsonCodec) (calls : List SignalCall) (state : StreamReducerState)
    (frames : List StreamLifecycleFrame) (hrun : reduceSignals json createInitialReducerState calls = some (state, frames)) :
    (∀ elapsedMs, WellFormed (frames ++ (finalizeStreamProjection elapsedMs state).frames)
      (finalizeStreamProjection elapsedMs state).state.snapshot) ∧
    state.snapshot.tools = state.tools.values ∧
    (state.terminal = true → ∀ elapsedMs recover signal, reduceStreamSignal json elapsedMs recover state signal =
      some ⟨{ state with sequence := state.sequence + 1 }, [⟨state.sequence + 1, elapsedMs, .providerPartRejected⟩], false⟩) := by
  have hinv : RunInv ([] ++ frames) state := runInv_run calls runInv_initial hrun
  exact ⟨wellFormed_finalized hinv, hinv.synced, fun hterm _ _ signal => reduceStreamSignal_terminal hterm signal⟩

def mixedCalls : List SignalCall :=
  [⟨.protocol (.textContent none (js "a")), 0, false⟩, ⟨.protocol (.reasoningContent (js "r") (js "b")), 1, false⟩,
    ⟨.protocol (.textContent none (js "c")), 2, false⟩, ⟨.protocol (.toolInputStart (js "t") (js "f") none none false), 3, false⟩,
    ⟨.protocol (.reasoningContent (js "r") (js "d")), 4, false⟩, ⟨.protocol (.stepFinish none none), 5, false⟩,
    ⟨.protocol .stepStart, 6, false⟩]

theorem stream_well_formed_mixed : ∃ state frames,
    reduceSignals ⟨fun _ => none, fun _ => none⟩ createInitialReducerState mixedCalls = some (state, frames) ∧
      frames.length = 19 ∧
      WellFormed (frames ++ (finalizeStreamProjection 7 state).frames) (finalizeStreamProjection 7 state).state.snapshot := by
  have hlength : (reduceSignals ⟨fun _ => none, fun _ => none⟩ createInitialReducerState mixedCalls).map (·.2.length) = some 19 := rfl
  obtain ⟨⟨state, frames⟩, hrun, hframes⟩ := Option.map_eq_some_iff.mp hlength
  exact ⟨state, frames, hrun, hframes, (stream_well_formed _ _ _ _ hrun).1 7⟩

end Veryfront.Agent.Streaming
