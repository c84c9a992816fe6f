import Veryfront.Agent.Conversation.LegacyRead

/-!
# What a version 1 read keeps

Text and reasoning of a stored run come through the reducer as they are, as long as the reducer is
live. A tool event that the reducer refuses makes it terminal, and what follows is dropped.
-/

namespace Veryfront.Agent.Streaming

/-! ## The content of frames -/

def reasoningTexts (bodies : List FrameBody) : List JsText :=
  bodies.filterMap fun
    | .semantic (.reasoningContent _ delta) => some delta
    | _ => none

def carriesContent : FrameBody → Bool
  | .semantic (.textContent ..) | .semantic (.reasoningContent ..) => true
  | _ => false

def frameTexts (frames : List StreamLifecycleFrame) : List JsText := textDeltas (frames.map StreamLifecycleFrame.body)

def frameReasoning (frames : List StreamLifecycleFrame) : List JsText := reasoningTexts (frames.map StreamLifecycleFrame.body)

@[simp] theorem frameTexts_append (a b : List StreamLifecycleFrame) : frameTexts (a ++ b) = frameTexts a ++ frameTexts b := by
  rw [frameTexts, List.map_append]
  exact List.filterMap_append

@[simp] theorem frameReasoning_append (a b : List StreamLifecycleFrame) :
    frameReasoning (a ++ b) = frameReasoning a ++ frameReasoning b := by
  rw [frameReasoning, List.map_append]
  exact List.filterMap_append

theorem no_content {frames : List StreamLifecycleFrame} (h : ∀ frame ∈ frames, carriesContent frame.body = false) :
    frameTexts frames = [] ∧ frameReasoning frames = [] := by
  have hnone : ∀ body ∈ frames.map StreamLifecycleFrame.body, carriesContent body = false := by
    intro body hbody
    obtain ⟨frame, hframe, rfl⟩ := List.mem_map.mp hbody
    exact h frame hframe
  constructor
  · refine List.filterMap_eq_nil_iff.mpr fun body hbody => ?_
    have := hnone body hbody
    revert this
    cases body with
    | semantic event => cases event <;> simp [carriesContent]
    | _ => simp
  · refine List.filterMap_eq_nil_iff.mpr fun body hbody => ?_
    have := hnone body hbody
    revert this
    cases body with
    | semantic event => cases event <;> simp [carriesContent]
    | _ => simp

theorem not_carriesContent_of_derived {body : FrameBody} (h : isDerived body = true) : carriesContent body = false := by
  cases body with
  | semantic event => cases event <;> first | rfl | cases h
  | _ => rfl

theorem not_carriesContent_of_commit {body : FrameBody} (h : isCommit body = true) : carriesContent body = false := by
  cases body with
  | semantic event => cases event <;> first | rfl | cases h
  | _ => rfl

section
variable {json : JsonCodec} {elapsedMs : Int} {recover : Bool} {state : StreamReducerState}

theorem content_emits {e : StreamReduction} (h : Emits (fun body => carriesContent body = false) { state } e) :
    frameTexts e.frames = [] ∧ frameReasoning e.frames = [] := by
  obtain ⟨new, hnew, hnone⟩ := h
  rw [hnew, List.nil_append]
  exact no_content hnone

theorem content_reduceProtocolEvent (event : StreamProtocolEvent) :
    frameTexts (reduceProtocolEvent json elapsedMs recover event { state }).frames = textDeltas [.semantic event] ∧
      frameReasoning (reduceProtocolEvent json elapsedMs recover event { state }).frames = reasoningTexts [.semantic event] := by
  cases event with
  | textContent id delta =>
    obtain ⟨e, he, hframes⟩ := emits_reduceTextContent (P := fun body => carriesContent body = false) { state } elapsedMs
      (fun _ => not_carriesContent_of_derived) delta
    obtain ⟨htext, hreasoning⟩ := content_emits he
    rw [show (reduceProtocolEvent json elapsedMs recover (.textContent id delta) { state }).frames = _ from hframes]
    rw [StreamReduction.emit, frameTexts_append, frameReasoning_append, htext, hreasoning]
    exact ⟨rfl, rfl⟩
  | reasoningContent id delta =>
    obtain ⟨e, he, hframes⟩ := emits_reduceReasoningContent (P := fun body => carriesContent body = false) { state } elapsedMs
      (fun _ => not_carriesContent_of_derived) id delta
    obtain ⟨htext, hreasoning⟩ := content_emits he
    rw [show (reduceProtocolEvent json elapsedMs recover (.reasoningContent id delta) { state }).frames = _ from hframes]
    rw [StreamReduction.emit, frameTexts_append, frameReasoning_append, htext, hreasoning]
    exact ⟨rfl, rfl⟩
  | stepFinish reason metadata =>
    obtain ⟨e, he, hframes⟩ := emits_finishStep (P := fun body => carriesContent body = false) { state } elapsedMs
      (fun _ => not_carriesContent_of_derived) (fun _ => not_carriesContent_of_commit) json recover reason metadata
    rw [show (reduceProtocolEvent json elapsedMs recover (.stepFinish reason metadata) { state }).frames = _ from hframes]
    exact content_emits (e := e.emit elapsedMs _) (he.emit _ elapsedMs rfl)
  | _ =>
    exact content_emits (emits_reduceProtocolEvent { state } elapsedMs (fun _ => not_carriesContent_of_derived) rfl json recover
      nofun (fun _ _ _ _ _ _ _ _ => rfl) nofun)

end

/-! ## Lists of events -/

/-- The tools after some events; `none` once one of them is refused. -/
def replayTools (json : JsonCodec) (tools : Tools) (events : List StreamProtocolEvent) : Option Tools :=
  events.foldlM (toolStep json) tools

/-- An event that neither ends the step nor throws. -/
def isPlain (event : StreamProtocolEvent) : Bool := !isStepFinishEvent event && !readsMissingStatus event

section
variable {json : JsonCodec} {state : StreamReducerState}

theorem reduceSignals_terminal (json : JsonCodec) (calls : List SignalCall) (hterm : state.terminal = true) :
    ∃ t frames, reduceSignals json state calls = some (t, frames) ∧ t.terminal = true ∧
      frameTexts frames = [] ∧ frameReasoning frames = [] := by
  induction calls generalizing state with
  | nil => exact ⟨state, [], rfl, hterm, rfl, rfl⟩
  | cons call calls ih =>
    obtain ⟨t, frames, hrun, htermt, htexts, hreasoning⟩ :=
      show ∃ t frames, reduceSignals json { state with sequence := state.sequence + 1 } calls = some (t, frames) ∧ _ from ih hterm
    refine ⟨t, _ ++ frames, reduceSignals_cons.mpr ⟨_, reduceStreamSignal_terminal hterm call.signal, frames, hrun, rfl⟩, htermt, ?_, ?_⟩
    · rw [frameTexts_append, htexts]
      rfl
    · rw [frameReasoning_append, hreasoning]
      rfl

theorem reduceStreamSignal_live (json : JsonCodec) {event : StreamProtocolEvent} (hlive : state.terminal = false) (hplain : isPlain event = true) :
    ∃ d, reduceStreamSignal json 0 false state (.protocol event) = some d ∧
      d.state.tools = (toolStep json state.tools event).getD state.tools ∧
      d.state.terminal = (toolStep json state.tools event).isNone ∧
      frameTexts d.frames = textDeltas [.semantic event] ∧ frameReasoning d.frames = reasoningTexts [.semantic event] := by
  rw [isPlain, Bool.and_eq_true, Bool.not_eq_true', Bool.not_eq_true'] at hplain
  obtain ⟨hstep, hstatus⟩ := hplain
  have houtcome : ToolOutcome event (toolStep json state.tools event) { state } (reduceProtocolEvent json 0 false event { state }) :=
    outcome_reduceProtocolEvent (d := { state }) event
  have hcontent : frameTexts (reduceProtocolEvent json 0 false event { state }).frames = textDeltas [.semantic event] ∧
      frameReasoning (reduceProtocolEvent json 0 false event { state }).frames = reasoningTexts [.semantic event] :=
    content_reduceProtocolEvent event
  refine ⟨recordProgress (reduceProtocolEvent json 0 false event { state }), ?_, ?_, ?_, ?_⟩
  · unfold reduceStreamSignal
    rw [if_neg (by rw [hlive]; decide)]
    exact if_neg (by rw [hstatus]; decide)
  · rw [tools_recordProgress]
    exact houtcome.tools
  · rw [terminal_recordProgress, houtcome.terminal, hstep, show StreamReducerState.terminal _ = false from hlive,
      Bool.or_false, Bool.or_false]
  · rw [frames_recordProgress]
    exact hcontent

theorem reduceSignals_live (json : JsonCodec) {events : List StreamProtocolEvent} (hlive : state.terminal = false) (hplain : ∀ event ∈ events, isPlain event = true) :
    ∃ t frames, reduceSignals json state (events.map Conversation.storedCall) = some (t, frames) ∧
      (∀ next, replayTools json state.tools events = some next → t.terminal = false ∧ t.tools = next ∧
        frameTexts frames = textDeltas (events.map .semantic) ∧ frameReasoning frames = reasoningTexts (events.map .semantic)) ∧
      (replayTools json state.tools events = none → t.terminal = true ∧
        ((∀ event ∈ events, carriesContent (.semantic event) = false) → frameTexts frames = [] ∧ frameReasoning frames = [])) := by
  induction events generalizing state with
  | nil => exact ⟨state, [], rfl, fun next hnext => ⟨hlive, Option.some.inj hnext, rfl, rfl⟩, nofun⟩
  | cons event events ih =>
    obtain ⟨d, hd, htools, hterminal, htexts, hreasoning⟩ :=
      reduceStreamSignal_live json hlive (hplain event List.mem_cons_self)
    have hreplay : replayTools json state.tools (event :: events) =
        (toolStep json state.tools event).bind fun next => replayTools json next events := List.foldlM_cons ..
    have hsingle : carriesContent (.semantic event) = false → textDeltas [.semantic event] = [] ∧ reasoningTexts [.semantic event] = [] := by
      cases event <;> first | exact fun _ => ⟨rfl, rfl⟩ | nofun
    rw [hreplay]
    cases hnext : toolStep json state.tools event with
    | none =>
      rw [hnext] at hterminal
      obtain ⟨t, frames, hrun, hterm, hnotext, hnoreasoning⟩ := reduceSignals_terminal json (events.map Conversation.storedCall) hterminal
      refine ⟨t, d.frames ++ frames, reduceSignals_cons.mpr ⟨d, hd, frames, hrun, rfl⟩, nofun, fun _ => ⟨hterm, fun hnone => ?_⟩⟩
      obtain ⟨hd1, hd2⟩ := hsingle (hnone event List.mem_cons_self)
      exact ⟨by rw [frameTexts_append, htexts, hd1, hnotext]; rfl, by rw [frameReasoning_append, hreasoning, hd2, hnoreasoning]; rfl⟩
    | some next =>
      rw [hnext] at hterminal htools
      obtain ⟨t, frames, hrun, hsome, hnone⟩ := ih hterminal fun e he => hplain e (List.mem_cons_of_mem _ he)
      rw [htools] at hsome hnone
      refine ⟨t, d.frames ++ frames, reduceSignals_cons.mpr ⟨d, hd, frames, hrun, rfl⟩, fun last hlast => ?_, fun hfail => ?_⟩
      · obtain ⟨hterm, hlasttools, h1, h2⟩ := hsome last hlast
        refine ⟨hterm, hlasttools, ?_, ?_⟩
        · rw [frameTexts_append, htexts, h1]
          exact (List.filterMap_append (l := [FrameBody.semantic event])).symm
        · rw [frameReasoning_append, hreasoning, h2]
          exact (List.filterMap_append (l := [FrameBody.semantic event])).symm
      · obtain ⟨hterm, hquiet⟩ := hnone hfail
        refine ⟨hterm, fun hall => ?_⟩
        obtain ⟨hd1, hd2⟩ := hsingle (hall event List.mem_cons_self)
        obtain ⟨h1, h2⟩ := hquiet fun e he => hall e (List.mem_cons_of_mem _ he)
        exact ⟨by rw [frameTexts_append, htexts, hd1, h1]; rfl, by rw [frameReasoning_append, hreasoning, hd2, h2]; rfl⟩

end

end Veryfront.Agent.Streaming

namespace Veryfront.Agent.Conversation

open Veryfront.Lib Veryfront.Agent.Streaming

/-! ## The content of stored events -/

def storedText (event : StoredEvent) : Option JsText :=
  if storedType event = .textMessageContent then some event.delta else none

def storedReasoning (event : StoredEvent) : Option JsText :=
  if storedType event = .reasoningMessageContent then some event.delta else none

def storedToolEvents (json : JsonCodec) (recovered : Bool) (tools : Tools) (event : StoredEvent) : List StreamProtocolEvent :=
  match storedType event with
  | .toolCallStart => [.toolInputStart event.toolCallId event.toolName (event.bool? (js "providerExecuted")) none false]
  | .toolCallArgs => [.toolInputContent event.toolCallId event.delta]
  | .toolCallEnd => [readToolCallEnd json tools recovered event]
  | .toolCallResult => readToolCallResult json tools event
  | _ => []

/-- A native record of the runtime whose names have no text. -/
def isUnreadable (event : StoredEvent) : Bool := storedType event = .other && (readNativeAsLegacyCustom event).isNone

def isMissingStatus (event : StoredEvent) : Bool :=
  storedType event = .custom &&
    readsMissingStatus (.custom ((event.string? (js "name")).getD (js "custom")) (event.get (js "value")))

section
variable {json : JsonCodec} {recovered : Bool} {tools : Tools} {closedTextIds : List JsText} {event : StoredEvent}

inductive Reads (json : JsonCodec) (tools : Tools) (event : StoredEvent) (toolEvents : List StreamProtocolEvent) : StoredReading → Prop
  | unknown (htext : storedText event = none) (hreasoning : storedReasoning event = none) (htools : toolEvents = []) :
      Reads json tools event toolEvents .unknown
  | events (events : List StreamProtocolEvent)
      (htext : textDeltas (events.map .semantic) = (storedText event).toList)
      (hreasoning : reasoningTexts (events.map .semantic) = (storedReasoning event).toList)
      (hplain : isMissingStatus event = false → ∀ e ∈ events, isPlain e = true)
      (htools : replayTools json tools events = replayTools json tools toolEvents)
      (hquiet : replayTools json tools events = none → ∀ e ∈ events, carriesContent (.semantic e) = false) :
      Reads json tools event toolEvents (.events events)

theorem readToolCallResult_shape (tools : Tools) (event : StoredEvent) :
    ∀ e ∈ readToolCallResult json tools event, isPlain e = true ∧ carriesContent (.semantic e) = false := by
  unfold readToolCallResult
  dsimp only
  split
  · simp [isPlain, isStepFinishEvent, readsMissingStatus, carriesContent]
  · simp [isPlain, isStepFinishEvent, readsMissingStatus, carriesContent]

theorem quiet_contents {events : List StreamProtocolEvent} (h : ∀ e ∈ events, carriesContent (.semantic e) = false) :
    textDeltas (events.map .semantic) = [] ∧ reasoningTexts (events.map .semantic) = [] := by
  have hnone : ∀ frame ∈ events.map fun e => (⟨0, 0, .semantic e⟩ : StreamLifecycleFrame), carriesContent frame.body = false := by
    intro frame hframe
    obtain ⟨e, he, rfl⟩ := List.mem_map.mp hframe
    exact h e he
  have hframes := no_content hnone
  rw [frameTexts, frameReasoning, List.map_map] at hframes
  exact hframes

theorem reads_single {e : StreamProtocolEvent} (htext : textDeltas [.semantic e] = (storedText event).toList)
    (hreasoning : reasoningTexts [.semantic e] = (storedReasoning event).toList)
    (hplain : isMissingStatus event = false → isPlain e = true) (htools : ∀ t, toolStep json t e = some t) :
    Reads json tools event [] (.events [e]) := by
  have hreplay : replayTools json tools [e] = some tools := by
    rw [replayTools, List.foldlM_cons, htools]
    rfl
  exact .events [e] htext hreasoning (fun h f hf => by rw [List.mem_singleton.mp hf]; exact hplain h) hreplay
    fun hfail => by rw [hreplay] at hfail; cases hfail

theorem reads_tools {events : List StreamProtocolEvent} (htext : storedText event = none) (hreasoning : storedReasoning event = none)
    (h : ∀ e ∈ events, isPlain e = true ∧ carriesContent (.semantic e) = false) : Reads json tools event events (.events events) := by
  obtain ⟨h1, h2⟩ := quiet_contents fun e he => (h e he).2
  exact .events events (by rw [h1, htext]; rfl) (by rw [h2, hreasoning]; rfl) (fun _ e he => (h e he).1) rfl fun _ e he => (h e he).2

theorem readsMissingStatus_name {name : JsText} (h : name ≠ toolCallStatusName) (data : JsValue) :
    readsMissingStatus (.custom name data) = false := by
  cases data <;> first | rfl | exact decide_eq_false h

theorem native_not_missing {native : NativeCustom} (h : readNativeAsLegacyCustom event = some (some native)) :
    readsMissingStatus (.custom native.name native.value) = false := by
  have hruntime : ∀ entry ∈ NATIVE_RUN_EVENTS, entry.1 = js "RUNTIME_EVENT_RECORDED" → entry.2 ≠ toolCallStatusName := by
    rw [NATIVE_RUN_EVENTS, toolCallStatusName]
    repeat rw [js_ofList]
    decide
  have hdot : ∀ runtime kind : JsText, runtime ++ js "." ++ kind ≠ toolCallStatusName := by
    intro runtime kind heq
    have hmem : (46 : UInt16) ∈ toolCallStatusName := by
      rw [← heq]
      exact List.mem_append_left _ (List.mem_append_right _ (by decide))
    revert hmem
    decide
  unfold readNativeAsLegacyCustom at h
  split at h
  · cases h
  · rename_i storedType legacyCustomName hfind
    dsimp only at h
    split at h
    · rename_i hstored
      split at h
      · obtain rfl := Option.some.inj (Option.some.inj h)
        obtain ⟨type, -, hentry⟩ := Option.bind_eq_some_iff.mp hfind
        exact readsMissingStatus_name (hruntime _ (List.mem_of_find?_eq_some hentry) hstored) _
      · obtain ⟨runtime, -, hrest⟩ := Option.bind_eq_some_iff.mp h
        obtain ⟨kind, -, hnative⟩ := Option.bind_eq_some_iff.mp hrest
        obtain rfl := Option.some.inj (Option.some.inj hnative)
        exact readsMissingStatus_name (hdot runtime kind) _
    · split at h
      · obtain rfl := Option.some.inj (Option.some.inj h)
        rfl
      · split at h
        · obtain rfl := Option.some.inj (Option.some.inj h)
          rfl
        · obtain rfl := Option.some.inj (Option.some.inj h)
          rfl

theorem readStoredEvent_spec (json : JsonCodec) (recovered : Bool) (tools : Tools) (closedTextIds : List JsText) (event : StoredEvent) :
    if isUnreadable event then readStoredEvent json recovered tools closedTextIds event = none
    else ∃ reading, readStoredEvent json recovered tools closedTextIds event = some reading ∧
      Reads json tools event (storedToolEvents json recovered tools event) reading := by
  unfold readStoredEvent storedToolEvents
  have hcontent : ∀ type, storedType event = type → type ≠ .textMessageContent → type ≠ .reasoningMessageContent →
      storedText event = none ∧ storedReasoning event = none := by
    rintro _ rfl htext hreasoning
    exact ⟨if_neg htext, if_neg hreasoning⟩
  have hreadable : storedType event ≠ .other → isUnreadable event = false := by
    intro h
    rw [isUnreadable, decide_eq_false h, Bool.false_and]
  cases htype : storedType event with
  | textMessageContent =>
    rw [if_neg (by rw [hreadable (by rw [htype]; decide)]; decide)]
    have htext : storedText event = some event.delta := if_pos htype
    have hreasoning : storedReasoning event = none := if_neg (by rw [htype]; decide)
    dsimp only
    split
    · exact ⟨_, rfl, reads_single (by rw [htext]; rfl) (by rw [hreasoning]; rfl) (fun _ => rfl) fun _ => rfl⟩
    · exact ⟨_, rfl, reads_single (by rw [htext]; rfl) (by rw [hreasoning]; rfl) (fun _ => rfl) fun _ => rfl⟩
  | reasoningMessageContent =>
    rw [if_neg (by rw [hreadable (by rw [htype]; decide)]; decide)]
    have htext : storedText event = none := if_neg (by rw [htype]; decide)
    have hreasoning : storedReasoning event = some event.delta := if_pos htype
    exact ⟨_, rfl, reads_single (by rw [htext]; rfl) (by rw [hreasoning]; rfl) (fun _ => rfl) fun _ => rfl⟩
  | other =>
    obtain ⟨htext, hreasoning⟩ := hcontent _ htype nofun nofun
    have hunreadable : isUnreadable event = (readNativeAsLegacyCustom event).isNone := by
      rw [isUnreadable, decide_eq_true htype, Bool.true_and]
    rw [hunreadable]
    cases hnative : readNativeAsLegacyCustom event with
    | none => rfl
    | some native =>
      refine ⟨_, rfl, ?_⟩
      cases native with
      | none => exact .unknown htext hreasoning rfl
      | some native =>
        refine reads_single (by rw [htext]; rfl) (by rw [hreasoning]; rfl) (fun _ => ?_) fun _ => rfl
        rw [isPlain, native_not_missing hnative]
        rfl
  | custom =>
    obtain ⟨htext, hreasoning⟩ := hcontent _ htype nofun nofun
    rw [if_neg (by rw [hreadable (by rw [htype]; decide)]; decide)]
    refine ⟨_, rfl, reads_single (by rw [htext]; rfl) (by rw [hreasoning]; rfl) (fun hstatus => ?_) fun _ => rfl⟩
    rw [isMissingStatus, decide_eq_true htype, Bool.true_and] at hstatus
    rw [isPlain, hstatus]
    rfl
  | toolCallEnd =>
    obtain ⟨htext, hreasoning⟩ := hcontent _ htype nofun nofun
    rw [if_neg (by rw [hreadable (by rw [htype]; decide)]; decide)]
    refine ⟨_, rfl, reads_tools htext hreasoning fun e he => ?_⟩
    rw [List.mem_singleton.mp he]
    unfold readToolCallEnd
    dsimp only
    split <;> exact ⟨rfl, rfl⟩
  | toolCallResult =>
    obtain ⟨htext, hreasoning⟩ := hcontent _ htype nofun nofun
    rw [if_neg (by rw [hreadable (by rw [htype]; decide)]; decide)]
    exact ⟨_, rfl, reads_tools htext hreasoning (readToolCallResult_shape tools event)⟩
  | toolCallStart | toolCallArgs =>
    obtain ⟨htext, hreasoning⟩ := hcontent _ htype nofun nofun
    rw [if_neg (by rw [hreadable (by rw [htype]; decide)]; decide)]
    exact ⟨_, rfl, reads_tools htext hreasoning fun e he => by rw [List.mem_singleton.mp he]; exact ⟨rfl, rfl⟩⟩
  | textMessageStart | textMessageEnd | reasoningMessageStart | reasoningMessageEnd =>
    obtain ⟨htext, hreasoning⟩ := hcontent _ htype nofun nofun
    rw [if_neg (by rw [hreadable (by rw [htype]; decide)]; decide)]
    exact ⟨_, rfl, reads_single (by rw [htext]; rfl) (by rw [hreasoning]; rfl) (fun _ => rfl) fun _ => rfl⟩

end

/-! ## When nothing is lost -/

section
variable (json : JsonCodec) (consumed recovered : List Nat)

/-- After a refused tool event there is no content, and nothing that throws. -/
def nothingAfter (entries : List (StoredEvent × Nat)) : Bool :=
  entries.all fun entry => consumed.contains entry.2 ||
    ((storedText entry.1).isNone && (storedReasoning entry.1).isNone && !isUnreadable entry.1)

def losesNothing : Tools → List (StoredEvent × Nat) → Bool
  | _, [] => true
  | tools, entry :: rest =>
    if consumed.contains entry.2 then losesNothing tools rest
    else if isMissingStatus entry.1 || isUnreadable entry.1 then false
    else match replayTools json tools (storedToolEvents json (recovered.contains entry.2) tools entry.1) with
      | some next => losesNothing next rest
      | none => nothingAfter consumed rest

end

section
variable {json : JsonCodec} {consumed recovered : List Nat} {reader next : LegacyReader} {entry : StoredEvent × Nat}
  {entries : List (StoredEvent × Nat)}

/-- A reader further on, with what it has added. -/
structure Advances (reader : LegacyReader) (texts reasoning : List JsText) (next : LegacyReader) : Prop where
  texts : frameTexts next.frames = frameTexts reader.frames ++ texts
  reasoning : frameReasoning next.frames = frameReasoning reader.frames ++ reasoning

theorem Advances.refl (reader : LegacyReader) : Advances reader [] [] reader :=
  ⟨(List.append_nil _).symm, (List.append_nil _).symm⟩

theorem Advances.trans {a b c : LegacyReader} {s t s' t' : List JsText} (h : Advances a s t b) (g : Advances b s' t' c) :
    Advances a (s ++ s') (t ++ t') c :=
  ⟨by rw [g.texts, h.texts, List.append_assoc], by rw [g.reasoning, h.reasoning, List.append_assoc]⟩

theorem Advances.after_iff {a b c : LegacyReader} {s t s' t' : List JsText} (h : Advances a s t b) :
    Advances b s' t' c ↔ Advances a (s ++ s') (t ++ t') c := by
  refine ⟨h.trans, fun g => ⟨?_, ?_⟩⟩
  · rw [g.texts, h.texts, List.append_assoc]
  · rw [g.reasoning, h.reasoning, List.append_assoc]

@[simp] theorem noteStoredEvent_reducer (reader : LegacyReader) (event : StoredEvent) :
    (noteStoredEvent reader event).reducer = reader.reducer := by
  unfold noteStoredEvent
  split
  · split <;> rfl
  · rfl
  · rfl
  · rfl

theorem noteStoredEvent_terminal {reader : LegacyReader} {terminal : Bool} (event : StoredEvent)
    (h : reader.reducer.terminal = terminal) : (noteStoredEvent reader event).reducer.terminal = terminal := by
  rw [noteStoredEvent_reducer]
  exact h

@[simp] theorem noteStoredEvent_frames (reader : LegacyReader) (event : StoredEvent) :
    (noteStoredEvent reader event).frames = reader.frames := by
  unfold noteStoredEvent
  split
  · split <;> rfl
  · rfl
  · rfl
  · rfl

theorem reduceStored_eq (json : JsonCodec) (reader : LegacyReader) (events : List StreamProtocolEvent) {t : StreamReducerState}
    {frames : List StreamLifecycleFrame} (h : reduceSignals json reader.reducer (events.map storedCall) = some (t, frames)) :
    reduceStored json reader events = some { reader with reducer := t, frames := reader.frames ++ frames } := by
  rw [reduceStored, h]
  rfl

theorem advances_reduced (reader : LegacyReader) (t : StreamReducerState) (frames : List StreamLifecycleFrame) :
    Advances reader (frameTexts frames) (frameReasoning frames) { reader with reducer := t, frames := reader.frames ++ frames } :=
  ⟨frameTexts_append .., frameReasoning_append ..⟩

theorem readEvent_unreadable (hconsumed : consumed.contains entry.2 = false) (h : isUnreadable entry.1 = true) :
    readEvent json consumed recovered reader entry = none := by
  have hspec := readStoredEvent_spec json (recovered.contains entry.2) reader.reducer.tools reader.closedTextIds entry.1
  rw [if_pos h] at hspec
  unfold readEvent
  rw [if_neg (by rw [hconsumed]; decide), hspec]
  rfl

theorem readEvent_consumed (hconsumed : consumed.contains entry.2 = true) :
    readEvent json consumed recovered reader entry = some reader := if_pos hconsumed

theorem readEvent_readable (json : JsonCodec) (recovered : List Nat) (reader : LegacyReader) (hconsumed : consumed.contains entry.2 = false) (h : isUnreadable entry.1 = false) :
    ∃ reading, Reads json reader.reducer.tools entry.1
        (storedToolEvents json (recovered.contains entry.2) reader.reducer.tools entry.1) reading ∧
      readEvent json consumed recovered reader entry = match reading with
        | .events events => reduceStored json (noteStoredEvent reader entry.1) events
        | .unknown => some (rejectUnknown (noteStoredEvent reader entry.1)) := by
  have hspec := readStoredEvent_spec json (recovered.contains entry.2) reader.reducer.tools reader.closedTextIds entry.1
  rw [if_neg (by rw [h]; decide)] at hspec
  obtain ⟨reading, hreading, hreads⟩ := hspec
  refine ⟨reading, hreads, ?_⟩
  unfold readEvent
  rw [if_neg (by rw [hconsumed]; decide), hreading]
  cases reading <;> rfl

theorem advances_unknown (reader : LegacyReader) (event : StoredEvent) :
    Advances reader [] [] (rejectUnknown (noteStoredEvent reader event)) := by
  have h := advances_reduced reader reader.reducer [⟨reader.reducer.sequence + 1, 0, .providerPartRejected⟩]
  refine ⟨?_, ?_⟩
  · rw [rejectUnknown, noteStoredEvent_frames, noteStoredEvent_reducer]
    exact h.texts
  · rw [rejectUnknown, noteStoredEvent_frames, noteStoredEvent_reducer]
    exact h.reasoning

theorem readEvent_terminal (json : JsonCodec) (consumed recovered : List Nat) (entry : StoredEvent × Nat) (hterm : reader.reducer.terminal = true) :
    if !consumed.contains entry.2 && isUnreadable entry.1 then readEvent json consumed recovered reader entry = none
    else ∃ next, readEvent json consumed recovered reader entry = some next ∧ next.reducer.terminal = true ∧
      Advances reader [] [] next := by
  cases hconsumed : consumed.contains entry.2 with
  | true => exact ⟨reader, readEvent_consumed hconsumed, hterm, .refl reader⟩
  | false =>
    cases hunreadable : isUnreadable entry.1 with
    | true => exact readEvent_unreadable hconsumed hunreadable
    | false =>
      show ∃ next, _
      obtain ⟨reading, -, heq⟩ := readEvent_readable json recovered reader hconsumed hunreadable
      rw [heq]
      cases reading with
      | unknown =>
        refine ⟨_, rfl, ?_, advances_unknown reader entry.1⟩
        rw [rejectUnknown, noteStoredEvent_reducer]
        exact hterm
      | events events =>
        obtain ⟨t, frames, hrun, htermt, htexts, hreasoning⟩ :=
          reduceSignals_terminal json (events.map storedCall) (noteStoredEvent_terminal entry.1 hterm)
        refine ⟨_, reduceStored_eq json _ events hrun, htermt, ?_⟩
        rw [noteStoredEvent_frames]
        have h := advances_reduced reader t frames
        rw [htexts, hreasoning] at h
        exact ⟨h.texts, h.reasoning⟩

theorem readEvents_terminal (json : JsonCodec) (consumed recovered : List Nat) (entries : List (StoredEvent × Nat)) (hterm : reader.reducer.terminal = true) :
    if entries.all fun entry => consumed.contains entry.2 || !isUnreadable entry.1 then
      ∃ next, entries.foldlM (readEvent json consumed recovered) reader = some next ∧ Advances reader [] [] next
    else entries.foldlM (readEvent json consumed recovered) reader = none := by
  induction entries generalizing reader with
  | nil => exact ⟨reader, rfl, .refl reader⟩
  | cons entry entries ih =>
    have hstep := readEvent_terminal json consumed recovered entry hterm
    rw [List.all_cons, List.foldlM_cons]
    cases hthrows : !consumed.contains entry.2 && isUnreadable entry.1 with
    | true =>
      rw [hthrows] at hstep
      have hnot : (consumed.contains entry.2 || !isUnreadable entry.1) = false := by
        rw [← Bool.not_not (consumed.contains entry.2), ← Bool.not_and, hthrows]
        rfl
      rw [hnot, Bool.false_and, hstep]
      rfl
    | false =>
      rw [hthrows] at hstep
      obtain ⟨next, hnext, htermnext, hadvance⟩ := hstep
      have hok : (consumed.contains entry.2 || !isUnreadable entry.1) = true := by
        rw [← Bool.not_not (consumed.contains entry.2), ← Bool.not_and, hthrows]
        rfl
      rw [hok, Bool.true_and, hnext]
      have hrest := ih htermnext
      split
      · rename_i hall
        rw [if_pos hall] at hrest
        obtain ⟨last, hlast, hadvances⟩ := hrest
        exact ⟨last, hlast, hadvance.trans hadvances⟩
      · rename_i hall
        rw [if_neg hall] at hrest
        exact hrest

theorem readEvent_missing (hlive : reader.reducer.terminal = false) (hconsumed : consumed.contains entry.2 = false)
    (h : isMissingStatus entry.1 = true) : readEvent json consumed recovered reader entry = none := by
  rw [isMissingStatus, Bool.and_eq_true, decide_eq_true_eq] at h
  obtain ⟨htype, hstatus⟩ := h
  have hread : readStoredEvent json (recovered.contains entry.2) reader.reducer.tools reader.closedTextIds entry.1 =
      some (.events [.custom ((entry.1.string? (js "name")).getD (js "custom")) (entry.1.get (js "value"))]) := by
    unfold readStoredEvent
    rw [htype]
  have hnone : reduceSignals json (noteStoredEvent reader entry.1).reducer
      ([StreamProtocolEvent.custom ((entry.1.string? (js "name")).getD (js "custom")) (entry.1.get (js "value"))].map storedCall) = none := by
    have hsignal : reduceStreamSignal json 0 false reader.reducer
        (.protocol (.custom ((entry.1.string? (js "name")).getD (js "custom")) (entry.1.get (js "value")))) = none := by
      unfold reduceStreamSignal
      rw [if_neg (by rw [hlive]; decide)]
      exact if_pos hstatus
    rw [noteStoredEvent_reducer, List.map_singleton, reduceSignals, storedCall, hsignal]
    rfl
  unfold readEvent
  rw [if_neg (by rw [hconsumed]; decide), hread]
  show reduceStored json (noteStoredEvent reader entry.1) _ = none
  rw [reduceStored, hnone]
  rfl

theorem readEvent_live (json : JsonCodec) (recovered : List Nat) (hlive : reader.reducer.terminal = false) (hconsumed : consumed.contains entry.2 = false)
    (hstatus : isMissingStatus entry.1 = false) (hreadable : isUnreadable entry.1 = false) :
    ∃ next, readEvent json consumed recovered reader entry = some next ∧
      match replayTools json reader.reducer.tools
        (storedToolEvents json (recovered.contains entry.2) reader.reducer.tools entry.1) with
      | some tools => next.reducer.terminal = false ∧ next.reducer.tools = tools ∧
          Advances reader (storedText entry.1).toList (storedReasoning entry.1).toList next
      | none => next.reducer.terminal = true ∧ Advances reader [] [] next ∧
          storedText entry.1 = none ∧ storedReasoning entry.1 = none := by
  obtain ⟨reading, hreads, heq⟩ := readEvent_readable json recovered reader hconsumed hreadable
  rw [heq]
  cases hreads with
  | unknown htext hreasoning htools =>
    refine ⟨_, rfl, ?_⟩
    rw [htools, htext, hreasoning]
    refine ⟨?_, ?_, advances_unknown reader entry.1⟩
    · rw [rejectUnknown, noteStoredEvent_reducer]
      exact hlive
    · rw [rejectUnknown, noteStoredEvent_reducer]
  | events events htext hreasoning hplain htools hquiet =>
    obtain ⟨t, frames, hrun, hsome, hnone⟩ := reduceSignals_live json (noteStoredEvent_terminal entry.1 hlive) (hplain hstatus)
    have hadvance : Advances reader (frameTexts frames) (frameReasoning frames)
        { noteStoredEvent reader entry.1 with reducer := t, frames := (noteStoredEvent reader entry.1).frames ++ frames } := by
      rw [noteStoredEvent_frames]
      exact ⟨frameTexts_append .., frameReasoning_append ..⟩
    refine ⟨_, reduceStored_eq json _ events hrun, ?_⟩
    rw [noteStoredEvent_reducer, htools] at hsome hnone
    rw [← htools]
    cases hreplay : replayTools json reader.reducer.tools events with
    | some tools =>
      obtain ⟨hterm, htoolsnext, h1, h2⟩ := hsome tools (htools ▸ hreplay)
      rw [h1, h2, htext, hreasoning] at hadvance
      exact ⟨hterm, htoolsnext, hadvance⟩
    | none =>
      have hcontentless := hquiet hreplay
      obtain ⟨hterm, hempty⟩ := hnone (htools ▸ hreplay)
      obtain ⟨h1, h2⟩ := hempty hcontentless
      obtain ⟨h3, h4⟩ := quiet_contents hcontentless
      rw [h1, h2] at hadvance
      rw [h3] at htext
      rw [h4] at hreasoning
      exact ⟨hterm, hadvance, Option.toList_eq_nil_iff.mp htext.symm, Option.toList_eq_nil_iff.mp hreasoning.symm⟩

/-- The content of the events that are still to be read. -/
def restTexts (entries : List (StoredEvent × Nat)) : List JsText := entries.filterMap fun entry => storedText entry.1

def restReasoning (entries : List (StoredEvent × Nat)) : List JsText := entries.filterMap fun entry => storedReasoning entry.1

theorem restTexts_cons (entry : StoredEvent × Nat) (entries : List (StoredEvent × Nat)) :
    restTexts (entry :: entries) = (storedText entry.1).toList ++ restTexts entries := by
  rw [restTexts, List.filterMap_cons]
  cases storedText entry.1 <;> rfl

theorem restReasoning_cons (entry : StoredEvent × Nat) (entries : List (StoredEvent × Nat)) :
    restReasoning (entry :: entries) = (storedReasoning entry.1).toList ++ restReasoning entries := by
  rw [restReasoning, List.filterMap_cons]
  cases storedReasoning entry.1 <;> rfl

def Contentless (entry : StoredEvent × Nat) : Prop := storedText entry.1 = none ∧ storedReasoning entry.1 = none

theorem nothingAfter_iff (hterm : reader.reducer.terminal = true)
    (hcustom : ∀ entry ∈ entries, consumed.contains entry.2 = true → Contentless entry) :
    nothingAfter consumed entries = true ↔ ∃ next, entries.foldlM (readEvent json consumed recovered) reader = some next ∧
      Advances reader (restTexts entries) (restReasoning entries) next := by
  have hrun := readEvents_terminal json consumed recovered entries hterm
  have hcontent : (∀ entry ∈ entries, Contentless entry) ↔ restTexts entries = [] ∧ restReasoning entries = [] := by
    rw [restTexts, restReasoning, List.filterMap_eq_nil_iff, List.filterMap_eq_nil_iff]
    exact ⟨fun h => ⟨fun e he => (h e he).1, fun e he => (h e he).2⟩, fun h e he => ⟨h.1 e he, h.2 e he⟩⟩
  have hsplit : nothingAfter consumed entries = true ↔
      (∀ entry ∈ entries, Contentless entry) ∧ (entries.all fun entry => consumed.contains entry.2 || !isUnreadable entry.1) = true := by
    rw [nothingAfter, List.all_eq_true, List.all_eq_true, ← forall₂_and]
    refine forall₂_congr fun entry hentry => ?_
    have hc := hcustom entry hentry
    cases hconsumed : consumed.contains entry.2 with
    | true => simp [hc hconsumed]
    | false =>
      simp only [Bool.false_or, Bool.and_eq_true, Option.isNone_iff_eq_none]
      exact Iff.rfl
  rw [hsplit]
  constructor
  · rintro ⟨hnone, hreadable⟩
    rw [if_pos hreadable] at hrun
    obtain ⟨next, hnext, hadvance⟩ := hrun
    obtain ⟨h1, h2⟩ := hcontent.mp hnone
    exact ⟨next, hnext, by rw [h1, h2]; exact hadvance⟩
  · rintro ⟨next, hnext, hadvance⟩
    by_cases hreadable : (entries.all fun entry => consumed.contains entry.2 || !isUnreadable entry.1) = true
    · rw [if_pos hreadable] at hrun
      obtain ⟨last, hlast, hadvance'⟩ := hrun
      obtain rfl := Option.some.inj (hnext.symm.trans hlast)
      refine ⟨hcontent.mpr ⟨?_, ?_⟩, hreadable⟩
      · exact List.append_cancel_left (hadvance.texts.symm.trans hadvance'.texts)
      · exact List.append_cancel_left (hadvance.reasoning.symm.trans hadvance'.reasoning)
    · rw [if_neg hreadable, hnext] at hrun
      cases hrun

theorem losesNothing_iff (json : JsonCodec) (recovered : List Nat) (entries : List (StoredEvent × Nat)) (hlive : reader.reducer.terminal = false)
    (hcustom : ∀ entry ∈ entries, consumed.contains entry.2 = true → Contentless entry) :
    losesNothing json consumed recovered reader.reducer.tools entries = true ↔
      ∃ next, entries.foldlM (readEvent json consumed recovered) reader = some next ∧
        Advances reader (restTexts entries) (restReasoning entries) next := by
  induction entries generalizing reader with
  | nil => exact iff_of_true rfl ⟨reader, rfl, .refl reader⟩
  | cons entry entries ih =>
    have hrest : ∀ e ∈ entries, consumed.contains e.2 = true → Contentless e :=
      fun e he => hcustom e (List.mem_cons_of_mem _ he)
    rw [losesNothing, restTexts_cons, restReasoning_cons, List.foldlM_cons]
    cases hconsumed : consumed.contains entry.2 with
    | true =>
      obtain ⟨htext, hreasoning⟩ := hcustom entry List.mem_cons_self hconsumed
      rw [if_pos rfl, readEvent_consumed hconsumed, htext, hreasoning]
      exact ih hlive hrest
    | false =>
      rw [if_neg (by decide)]
      cases hstatus : isMissingStatus entry.1 with
      | true =>
        rw [readEvent_missing hlive hconsumed hstatus]
        exact iff_of_false (by rw [Bool.true_or, if_pos rfl]; decide) (by rintro ⟨_, hnone, -⟩; cases hnone)
      | false =>
        cases hunreadable : isUnreadable entry.1 with
        | true =>
          rw [readEvent_unreadable hconsumed hunreadable]
          exact iff_of_false (by rw [Bool.or_true, if_pos rfl]; decide) (by rintro ⟨_, hnone, -⟩; cases hnone)
        | false =>
          rw [Bool.or_false, if_neg (by decide)]
          obtain ⟨next, hnext, hafter⟩ := readEvent_live json recovered hlive hconsumed hstatus hunreadable
          rw [hnext]
          cases hreplay : replayTools json reader.reducer.tools
              (storedToolEvents json (recovered.contains entry.2) reader.reducer.tools entry.1) with
          | some tools =>
            rw [hreplay] at hafter
            obtain ⟨hlivenext, htools, hadvance⟩ := hafter
            rw [← htools]
            refine (ih hlivenext hrest).trans (exists_congr fun last => and_congr_right fun _ => ?_)
            exact hadvance.after_iff
          | none =>
            rw [hreplay] at hafter
            obtain ⟨hterm, hadvance, htext, hreasoning⟩ := hafter
            rw [htext, hreasoning]
            refine (nothingAfter_iff hterm hrest).trans (exists_congr fun last => and_congr_right fun _ => ?_)
            exact hadvance.after_iff

/-! ## The whole read -/

theorem runInv_reduceStored {events : List StreamProtocolEvent} (h : RunInv reader.frames reader.reducer)
    (hnext : reduceStored json reader events = some next) : RunInv next.frames next.reducer := by
  obtain ⟨⟨t, frames⟩, hrun, heq⟩ := Option.bind_eq_some_iff.mp hnext
  obtain rfl := Option.some.inj heq
  exact runInv_run _ h hrun

theorem runInv_readEvent (h : RunInv reader.frames reader.reducer)
    (hnext : readEvent json consumed recovered reader entry = some next) : RunInv next.frames next.reducer := by
  cases hconsumed : consumed.contains entry.2 with
  | true =>
    rw [readEvent_consumed hconsumed] at hnext
    rw [← Option.some.inj hnext]
    exact h
  | false =>
    cases hunreadable : isUnreadable entry.1 with
    | true =>
      rw [readEvent_unreadable hconsumed hunreadable] at hnext
      cases hnext
    | false =>
      obtain ⟨reading, -, heq⟩ := readEvent_readable json recovered reader hconsumed hunreadable
      rw [heq] at hnext
      have hnoted : RunInv (noteStoredEvent reader entry.1).frames (noteStoredEvent reader entry.1).reducer := by
        rw [noteStoredEvent_frames, noteStoredEvent_reducer]
        exact h
      cases reading with
      | unknown =>
        rw [← Option.some.inj hnext]
        exact runInv_rejected hnoted 0
      | events events => exact runInv_reduceStored hnoted hnext

theorem runInv_readEvents (entries : List (StoredEvent × Nat)) (h : RunInv reader.frames reader.reducer)
    (hnext : entries.foldlM (readEvent json consumed recovered) reader = some next) : RunInv next.frames next.reducer := by
  induction entries generalizing reader with
  | nil =>
    rw [← Option.some.inj hnext]
    exact h
  | cons entry entries ih =>
    rw [List.foldlM_cons] at hnext
    obtain ⟨middle, hmiddle, hrest⟩ := Option.bind_eq_some_iff.mp hnext
    exact ih (runInv_readEvent h hmiddle) hrest

theorem reduceStored_quiet (json : JsonCodec) (reader : LegacyReader) (events : List StreamProtocolEvent)
    (hquiet : ∀ e ∈ events, isPlain e = true ∧ carriesContent (.semantic e) = false) :
    ∃ next, reduceStored json reader events = some next ∧ Advances reader [] [] next := by
  cases hterm : reader.reducer.terminal with
  | true =>
    obtain ⟨t, frames, hrun, -, htexts, hreasoning⟩ := reduceSignals_terminal json (events.map storedCall) hterm
    have hadvance := advances_reduced reader t frames
    rw [htexts, hreasoning] at hadvance
    exact ⟨_, reduceStored_eq json reader events hrun, hadvance⟩
  | false =>
    obtain ⟨t, frames, hrun, hsome, hnone⟩ := reduceSignals_live json hterm fun e he => (hquiet e he).1
    have hcontentless := fun e he => (hquiet e he).2
    have hempty : frameTexts frames = [] ∧ frameReasoning frames = [] := by
      cases hreplay : replayTools json reader.reducer.tools events with
      | some tools =>
        obtain ⟨-, -, h1, h2⟩ := hsome tools hreplay
        obtain ⟨h3, h4⟩ := quiet_contents hcontentless
        exact ⟨h1.trans h3, h2.trans h4⟩
      | none => exact (hnone hreplay).2 hcontentless
    have hadvance := advances_reduced reader t frames
    rw [hempty.1, hempty.2] at hadvance
    exact ⟨_, reduceStored_eq json reader events hrun, hadvance⟩

theorem repairMissingResult_quiet (json : JsonCodec) (call : JsText × StreamToolSnapshot) (h : RunInv reader.frames reader.reducer) :
    ∃ next, repairMissingResult json reader call = some next ∧ Advances reader [] [] next ∧ RunInv next.frames next.reducer := by
  unfold repairMissingResult
  dsimp only
  split
  · exact ⟨reader, rfl, .refl reader, h⟩
  · generalize hmarked : ({ reader with repairs := _ } : LegacyReader) = marked
    have hframes : marked.frames = reader.frames := by rw [← hmarked]
    have hreducer : marked.reducer = reader.reducer := by rw [← hmarked]
    obtain ⟨next, hnext, hadvance⟩ := reduceStored_quiet json marked
      [.providerToolStart call.1 call.2.name, .providerToolResult call.1 call.2.name missingResult true none none]
      (by simp [isPlain, isStepFinishEvent, readsMissingStatus, carriesContent])
    refine ⟨next, hnext, ⟨?_, ?_⟩, runInv_reduceStored (by rw [hframes, hreducer]; exact h) hnext⟩
    · rw [hadvance.texts, hframes]
    · rw [hadvance.reasoning, hframes]

theorem repairs_quiet (json : JsonCodec) (calls : List (JsText × StreamToolSnapshot)) (h : RunInv reader.frames reader.reducer) :
    ∃ next, calls.foldlM (repairMissingResult json) reader = some next ∧ Advances reader [] [] next ∧
      RunInv next.frames next.reducer := by
  induction calls generalizing reader with
  | nil => exact ⟨reader, rfl, .refl reader, h⟩
  | cons call calls ih =>
    obtain ⟨middle, hmiddle, hadvance, hinv⟩ := repairMissingResult_quiet json call h
    obtain ⟨next, hnext, hadvances, hinvnext⟩ := ih hinv
    refine ⟨next, ?_, hadvance.trans hadvances, hinvnext⟩
    rw [List.foldlM_cons, hmiddle]
    exact hnext

theorem consumed_contentless (events : List StoredEvent) :
    ∀ entry ∈ events.zipIdx, (resolveToolResultOwnershipCorrections events).consumed.contains entry.2 = true → Contentless entry := by
  intro entry hentry hconsumed
  rw [List.contains_iff_mem] at hconsumed
  obtain ⟨accepted, haccepted, hindex⟩ := List.mem_map.mp hconsumed
  obtain ⟨id, -, hid⟩ := List.mem_filterMap.mp haccepted
  have htype : storedType entry.1 = .custom := by
    split at hid
    · rename_i index value hfilter
      have hsame : accepted.2.2 = index := by
        split at hid
        · cases hid
        · obtain ⟨complete, -, hcomplete⟩ := Option.bind_eq_some_iff.mp hid
          dsimp only at hcomplete
          split at hcomplete
          · rw [← Option.some.inj hcomplete]
          · cases hcomplete
      have hmem := List.mem_of_mem_filter (hfilter ▸ List.mem_singleton_self (index, value))
      obtain ⟨source, hsource, hread⟩ := List.mem_filterMap.mp hmem
      split at hread
      · rename_i hcorrection
        obtain ⟨correction, -, hpair⟩ := Option.map_eq_some_iff.mp hread
        have hposition : source.2 = entry.2 := by rw [← hindex, hsame, ← (Prod.mk.inj hpair).1]
        have hevent : source.1 = entry.1 := by
          have h1 := List.mem_zipIdx_iff_getElem?.mp hsource
          have h2 := List.mem_zipIdx_iff_getElem?.mp hentry
          rw [hposition, h2] at h1
          exact (Option.some.inj h1).symm
        rw [← hevent]
        rw [isOwnershipCorrection, Bool.and_eq_true, Bool.and_eq_true, decide_eq_true_eq] at hcorrection
        exact hcorrection.1.1
      · cases hread
    · cases hid
  exact ⟨if_neg (by rw [htype]; decide), if_neg (by rw [htype]; decide)⟩

end

def KeepsContent (json : JsonCodec) (events : List StoredEvent) : Prop :=
  ∃ read, readVersion1 json events = some read ∧
    frameTexts read.frames = events.filterMap storedText ∧
    frameReasoning read.frames = events.filterMap storedReasoning ∧
    read.frames.map StreamLifecycleFrame.sequence = List.range' 1 read.frames.length ∧
    segmentsAfter (read.frames.map StreamLifecycleFrame.body) = some none

def readLosesNothing (json : JsonCodec) (events : List StoredEvent) : Bool :=
  let corrections := resolveToolResultOwnershipCorrections events
  losesNothing json corrections.consumed (corrections.ends ++ resultOwnedEnds events) .empty events.zipIdx

theorem restContents_zipIdx (events : List StoredEvent) :
    restTexts events.zipIdx = events.filterMap storedText ∧ restReasoning events.zipIdx = events.filterMap storedReasoning := by
  have hfst : events.zipIdx.map Prod.fst = events := List.zipIdx_map_fst 0 events
  constructor
  · rw [restTexts, ← Function.comp_def storedText Prod.fst, ← List.filterMap_map, hfst]
  · rw [restReasoning, ← Function.comp_def storedReasoning Prod.fst, ← List.filterMap_map, hfst]

/-- A version 1 read keeps the content of a stored run exactly when no event makes it throw and no content follows a
tool event that the lifecycle refuses. -/
theorem legacy_read_keeps_content_iff (json : JsonCodec) (events : List StoredEvent) :
    KeepsContent json events ↔ readLosesNothing json events = true := by
  have hstart : RunInv (LegacyReader.mk createInitialReducerState [] [] [] []).frames
      (LegacyReader.mk createInitialReducerState [] [] [] []).reducer := runInv_initial
  have hlive : (LegacyReader.mk createInitialReducerState [] [] [] []).reducer.terminal = false := rfl
  have hiff := losesNothing_iff json ((resolveToolResultOwnershipCorrections events).ends ++ resultOwnedEnds events)
    events.zipIdx hlive (consumed_contentless events)
  rw [(restContents_zipIdx events).1, (restContents_zipIdx events).2] at hiff
  refine Iff.trans ?_ hiff.symm
  constructor
  · rintro ⟨read, hread, htexts, hreasoning, -, -⟩
    obtain ⟨next, hnext, hrest⟩ := Option.bind_eq_some_iff.mp hread
    obtain ⟨last, hlast, hdone⟩ := Option.bind_eq_some_iff.mp hrest
    have hinv := runInv_readEvents _ hstart hnext
    obtain ⟨repaired, hrepaired, hadvance, -⟩ := repairs_quiet json next.reducer.tools.entries hinv
    obtain rfl := Option.some.inj (hlast.symm.trans hrepaired)
    obtain ⟨hclosed, hclosed'⟩ := content_emits (emits_closeOpenContent (P := fun body => carriesContent body = false)
      { state := last.reducer } 0 fun _ => not_carriesContent_of_derived)
    rw [← Option.some.inj hdone, frameTexts_append, finalizeStreamProjection, hclosed, List.append_nil] at htexts
    rw [← Option.some.inj hdone, frameReasoning_append, finalizeStreamProjection, hclosed', List.append_nil] at hreasoning
    refine ⟨next, hnext, ⟨?_, ?_⟩⟩
    · rw [← htexts, hadvance.texts, List.append_nil]
      rfl
    · rw [← hreasoning, hadvance.reasoning, List.append_nil]
      rfl
  · rintro ⟨next, hnext, hadvance⟩
    have hinv := runInv_readEvents _ hstart hnext
    obtain ⟨last, hlast, hrepairs, hinvlast⟩ := repairs_quiet json next.reducer.tools.entries hinv
    obtain ⟨hclosed, hclosed'⟩ := content_emits (emits_closeOpenContent (P := fun body => carriesContent body = false)
      { state := last.reducer } 0 fun _ => not_carriesContent_of_derived)
    have hwell := wellFormed_finalized hinvlast 0
    refine ⟨⟨last.frames ++ (finalizeStreamProjection 0 last.reducer).frames, last.repairs⟩, ?_, ?_, ?_, hwell.numbered, hwell.bracketed⟩
    · rw [readVersion1, hnext]
      show (next.reducer.tools.entries.foldlM (repairMissingResult json) next).bind _ = _
      rw [hlast]
      rfl
    · rw [frameTexts_append, finalizeStreamProjection, hclosed, List.append_nil, hrepairs.texts, List.append_nil, hadvance.texts]
      rfl
    · rw [frameReasoning_append, finalizeStreamProjection, hclosed', List.append_nil, hrepairs.reasoning, List.append_nil,
        hadvance.reasoning]
      rfl

def noJson : JsonCodec := ⟨fun _ => none, fun _ => none⟩

def orphanArguments : List StoredEvent :=
  [[(js "type", .string (js "TOOL_CALL_ARGS")), (js "toolCallId", .string (js "c")), (js "delta", .string (js "1"))],
    [(js "type", .string (js "TEXT_MESSAGE_CONTENT")), (js "delta", .string (js "hello"))]]

def emptyStatus : List StoredEvent := [[(js "type", .string (js "CUSTOM")), (js "name", .string (js "tool-call-status"))]]

/-- The text behind orphaned arguments is dropped, and an empty status throws. -/
theorem orphan_arguments_drop_text : ¬ KeepsContent noJson orphanArguments ∧ ¬ KeepsContent noJson emptyStatus ∧
    (readVersion1 noJson orphanArguments).map (fun read => frameTexts read.frames) = some [] ∧
    (readVersion1 noJson emptyStatus).isNone = true := by
  have horphan : (readVersion1 noJson orphanArguments).map (fun read => frameTexts read.frames) = some [] := by
    decide
  have hempty : (readVersion1 noJson emptyStatus).isNone = true := by decide
  refine ⟨?_, ?_, horphan, hempty⟩
  · rintro ⟨read, hread, htexts, -⟩
    rw [hread, Option.map_some, htexts] at horphan
    exact absurd horphan (by decide)
  · rintro ⟨read, hread, -⟩
    rw [hread] at hempty
    cases hempty

end Veryfront.Agent.Conversation
