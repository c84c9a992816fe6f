import Veryfront.Agent.Streaming.Reducer

/-!
# The frames of a stream are well formed

Clients read the frames alone. What they rely on is that text and reasoning come in segments that
are opened, filled and closed one at a time, and that the frames carry the same content as the
snapshot. The monitor below reads frames as a client does; the state says which segment it is in.
-/

namespace Veryfront.Agent.Streaming

open Veryfront.Lib

/-! ## What a client sees -/

inductive Segment
  | text (id : JsText)
  | reasoning (id : JsText)
deriving DecidableEq, Repr

/-- The segment that is open after a frame; `none` outside when the frame is out of place. -/
def segmentStep (current : Option Segment) : FrameBody → Option (Option Segment)
  | .semantic (.textStart (some id)) => if current = none then some (some (.text id)) else none
  | .semantic (.textStart none) => none
  | .semantic (.textContent (some id) _) => if current = some (.text id) then some current else none
  | .semantic (.textContent none _) => none
  | .semantic (.textEnd (some id)) => if current = some (.text id) then some none else none
  | .semantic (.textEnd none) => none
  | .semantic (.reasoningStart id) => if current = none then some (some (.reasoning id)) else none
  | .semantic (.reasoningContent id _) => if current = some (.reasoning id) then some current else none
  | .semantic (.reasoningEnd id _ _) => if current = some (.reasoning id) then some none else none
  | .semantic (.stepFinish ..) => if current = none then some none else none
  | _ => some current

def segmentsAfter (bodies : List FrameBody) : Option (Option Segment) :=
  bodies.foldlM segmentStep none

def textStarts (bodies : List FrameBody) : List JsText :=
  bodies.filterMap fun
    | .semantic (.textStart id) => id
    | _ => none

def textDeltas (bodies : List FrameBody) : List JsText :=
  bodies.filterMap fun
    | .semantic (.textContent _ delta) => some delta
    | _ => none

def reasoningDeltas (id : JsText) (bodies : List FrameBody) : List JsText :=
  bodies.filterMap fun
    | .semantic (.reasoningContent i delta) => if i = id then some delta else none
    | _ => none

def partText (id : JsText) (parts : List ReasoningPart) : JsText :=
  ((parts.find? fun part => part.id = id).map ReasoningPart.text).getD []

/-- The frames that the monitor and the content views pass over. -/
def isNeutral : FrameBody → Bool
  | .semantic (.textStart _) | .semantic (.textContent ..) | .semantic (.textEnd _) => false
  | .semantic (.reasoningStart _) | .semantic (.reasoningContent ..) | .semantic (.reasoningEnd ..) => false
  | .semantic (.stepFinish ..) => false
  | _ => true

/-! ## The state agrees with the frames -/

def openSegment (state : StreamReducerState) : Option Segment :=
  match state.activeTextId with
  | some id => some (.text id)
  | none => state.activeReasoningId.map .reasoning

structure Agrees (frames : List StreamLifecycleFrame) (state : StreamReducerState) : Prop where
  numbered : frames.map StreamLifecycleFrame.sequence = List.range' 1 frames.length
  counted : state.sequence = frames.length
  bracketed : segmentsAfter (frames.map StreamLifecycleFrame.body) = some (openSegment state)
  single : state.activeTextId = none ∨ state.activeReasoningId = none
  started : textStarts (frames.map StreamLifecycleFrame.body) = (List.range state.nextTextIndex).map textId
  text : (textDeltas (frames.map StreamLifecycleFrame.body)).flatten = state.snapshot.accumulatedText
  reasoning : ∀ id, (reasoningDeltas id (frames.map StreamLifecycleFrame.body)).flatten =
    partText id state.snapshot.reasoning
  parts : (state.snapshot.reasoning.map ReasoningPart.id).Nodup

theorem Agrees.congr {frames : List StreamLifecycleFrame} {s t : StreamReducerState} (h : Agrees frames s)
    (hseq : t.sequence = s.sequence) (htext : t.activeTextId = s.activeTextId)
    (hreasoning : t.activeReasoningId = s.activeReasoningId) (hnext : t.nextTextIndex = s.nextTextIndex)
    (hacc : t.snapshot.accumulatedText = s.snapshot.accumulatedText)
    (hparts : t.snapshot.reasoning = s.snapshot.reasoning) : Agrees frames t := by
  refine ⟨h.numbered, hseq ▸ h.counted, ?_, ?_, hnext ▸ h.started, hacc ▸ h.text, hparts ▸ h.reasoning, hparts ▸ h.parts⟩
  · rw [h.bracketed, openSegment, openSegment, htext, hreasoning]
  · rw [htext, hreasoning]
    exact h.single

section
variable (bodies : List FrameBody) (body : FrameBody)

theorem segmentsAfter_append : segmentsAfter (bodies ++ [body]) = (segmentsAfter bodies).bind fun c => segmentStep c body := by
  rw [segmentsAfter, List.foldlM_append]
  show (bodies.foldlM segmentStep none).bind (fun c => (segmentStep c body).bind some) = _
  congr 1
  funext c
  exact Option.bind_fun_some _

theorem textStarts_append : textStarts (bodies ++ [body]) = textStarts bodies ++ textStarts [body] :=
  List.filterMap_append ..

theorem textDeltas_append : textDeltas (bodies ++ [body]) = textDeltas bodies ++ textDeltas [body] :=
  List.filterMap_append ..

theorem reasoningDeltas_append (id : JsText) :
    reasoningDeltas id (bodies ++ [body]) = reasoningDeltas id bodies ++ reasoningDeltas id [body] :=
  List.filterMap_append ..

end

variable {body : FrameBody}

theorem Agrees.snoc {frames : List StreamLifecycleFrame} {s t : StreamReducerState} {elapsedMs : Int}
    (h : Agrees frames s) (hseq : t.sequence = s.sequence + 1)
    (hseg : segmentStep (openSegment s) body = some (openSegment t))
    (hsingle : t.activeTextId = none ∨ t.activeReasoningId = none)
    (hstarts : (List.range s.nextTextIndex).map textId ++ textStarts [body] = (List.range t.nextTextIndex).map textId)
    (htext : s.snapshot.accumulatedText ++ (textDeltas [body]).flatten = t.snapshot.accumulatedText)
    (hreasoning : ∀ id, partText id s.snapshot.reasoning ++ (reasoningDeltas id [body]).flatten =
      partText id t.snapshot.reasoning)
    (hparts : (t.snapshot.reasoning.map ReasoningPart.id).Nodup) :
    Agrees (frames ++ [⟨s.sequence + 1, elapsedMs, body⟩]) t := by
  refine ⟨?_, ?_, ?_, hsingle, ?_, ?_, ?_, hparts⟩
  · rw [List.map_append, h.numbered, List.length_append, List.length_singleton, List.range'_1_concat, h.counted,
      Nat.add_comm 1]
    rfl
  · rw [hseq, h.counted, List.length_append, List.length_singleton]
  · rw [List.map_append]
    show segmentsAfter (_ ++ [body]) = _
    rw [segmentsAfter_append, h.bracketed]
    exact hseg
  · rw [List.map_append]
    show textStarts (_ ++ [body]) = _
    rw [textStarts_append, h.started, hstarts]
  · rw [List.map_append]
    show (textDeltas (_ ++ [body])).flatten = _
    rw [textDeltas_append, List.flatten_append, h.text, htext]
  · intro id
    rw [List.map_append]
    show (reasoningDeltas id (_ ++ [body])).flatten = _
    rw [reasoningDeltas_append, List.flatten_append, h.reasoning, hreasoning]

/-! ## The steps of a reduction keep the agreement -/

def Sound (prior : List StreamLifecycleFrame) (d : StreamReduction) : Prop := Agrees (prior ++ d.frames) d.state

section
variable {prior : List StreamLifecycleFrame} {d : StreamReduction} {elapsedMs : Int}

theorem neutral_views (h : isNeutral body = true) (current : Option Segment) (id : JsText) :
    segmentStep current body = some current ∧ textStarts [body] = [] ∧ textDeltas [body] = [] ∧
      reasoningDeltas id [body] = [] := by
  cases body with
  | semantic event => cases event <;> first | exact ⟨rfl, rfl, rfl, rfl⟩ | cases h
  | _ => exact ⟨rfl, rfl, rfl, rfl⟩

theorem sound_neutral (h : Sound prior d) (hb : isNeutral body = true) :
    Sound prior (d.emit elapsedMs body) := by
  unfold Sound StreamReduction.emit
  rw [← List.append_assoc]
  have hv := neutral_views hb (openSegment d.state)
  refine Agrees.snoc h rfl (hv []).1 h.single ?_ ?_ ?_ h.parts
  · rw [(hv []).2.1, List.append_nil]
  · rw [(hv []).2.2.1]
    exact List.append_nil _
  · intro id
    rw [(hv id).2.2.2]
    exact List.append_nil _

theorem sound_state {e : StreamReduction} (h : Sound prior d) (hframes : e.frames = d.frames)
    (hseq : e.state.sequence = d.state.sequence) (htext : e.state.activeTextId = d.state.activeTextId)
    (hreasoning : e.state.activeReasoningId = d.state.activeReasoningId)
    (hnext : e.state.nextTextIndex = d.state.nextTextIndex)
    (hacc : e.state.snapshot.accumulatedText = d.state.snapshot.accumulatedText)
    (hparts : e.state.snapshot.reasoning = d.state.snapshot.reasoning) : Sound prior e := by
  unfold Sound
  rw [hframes]
  exact Agrees.congr h hseq htext hreasoning hnext hacc hparts

variable {state : StreamReducerState} {id : JsText}

theorem openSegment_text (h : state.activeTextId = some id) :
    openSegment state = some (.text id) := by
  rw [openSegment, h]

theorem openSegment_reasoning (htext : state.activeTextId = none)
    (h : state.activeReasoningId = some id) : openSegment state = some (.reasoning id) := by
  rw [openSegment, htext, h]
  rfl

theorem openSegment_none (htext : state.activeTextId = none)
    (h : state.activeReasoningId = none) : openSegment state = none := by
  rw [openSegment, htext, h]
  rfl

theorem sound_snoc {progress : Bool} (h : Sound prior d)
    (hseq : state.sequence = d.state.sequence + 1)
    (hseg : segmentStep (openSegment d.state) body = some (openSegment state))
    (hsingle : state.activeTextId = none ∨ state.activeReasoningId = none)
    (hstarts : (List.range d.state.nextTextIndex).map textId ++ textStarts [body] =
      (List.range state.nextTextIndex).map textId)
    (htext : d.state.snapshot.accumulatedText ++ (textDeltas [body]).flatten = state.snapshot.accumulatedText)
    (hreasoning : ∀ id, partText id d.state.snapshot.reasoning ++ (reasoningDeltas id [body]).flatten =
      partText id state.snapshot.reasoning)
    (hparts : (state.snapshot.reasoning.map ReasoningPart.id).Nodup) :
    Sound prior ⟨state, d.frames ++ [⟨d.state.sequence + 1, elapsedMs, body⟩], progress⟩ := by
  unfold Sound
  rw [← List.append_assoc]
  exact Agrees.snoc h hseq hseg hsingle hstarts htext hreasoning hparts

theorem sound_bracket {progress : Bool} (h : Sound prior d)
    (hseq : state.sequence = d.state.sequence + 1)
    (hseg : segmentStep (openSegment d.state) body = some (openSegment state))
    (hsingle : state.activeTextId = none ∨ state.activeReasoningId = none)
    (hnext : state.nextTextIndex = d.state.nextTextIndex) (hstarts : textStarts [body] = [])
    (htext : textDeltas [body] = []) (hreasoning : ∀ id, reasoningDeltas id [body] = [])
    (hacc : state.snapshot.accumulatedText = d.state.snapshot.accumulatedText)
    (hparts : (state.snapshot.reasoning.map ReasoningPart.id).Nodup)
    (hsame : ∀ id, partText id d.state.snapshot.reasoning = partText id state.snapshot.reasoning) :
    Sound prior ⟨state, d.frames ++ [⟨d.state.sequence + 1, elapsedMs, body⟩], progress⟩ := by
  refine sound_snoc (d := d) h hseq hseg hsingle ?_ ?_ ?_ hparts
  · rw [hstarts, hnext, List.append_nil]
  · rw [htext, hacc]
    exact List.append_nil _
  · intro id
    rw [hreasoning, hsame]
    exact List.append_nil _

theorem sound_closeReasoning (h : Sound prior d) : Sound prior (d.closeReasoning elapsedMs) := by
  unfold StreamReduction.closeReasoning
  cases hr : d.state.activeReasoningId with
  | none => exact h
  | some id =>
    have ht : d.state.activeTextId = none := h.single.resolve_right (by rw [hr]; nofun)
    refine sound_bracket (d := d) h rfl ?_ (.inl ht) rfl rfl rfl (fun _ => rfl) rfl h.parts fun _ => rfl
    rw [openSegment_reasoning ht hr, openSegment_none (by exact ht) rfl]
    exact if_pos rfl

theorem sound_closeText (h : Sound prior d) : Sound prior (d.closeText elapsedMs) := by
  unfold StreamReduction.closeText
  cases ht : d.state.activeTextId with
  | none => exact h
  | some id =>
    have hr : d.state.activeReasoningId = none := h.single.resolve_left (by rw [ht]; nofun)
    refine sound_bracket (d := d) h rfl ?_ (.inl rfl) rfl rfl rfl (fun _ => rfl) rfl h.parts fun _ => rfl
    rw [openSegment_text ht, openSegment_none rfl (by exact hr)]
    exact if_pos rfl

@[simp] theorem closeReasoning_reasoning : (d.closeReasoning elapsedMs).state.activeReasoningId = none := by
  unfold StreamReduction.closeReasoning
  split
  · assumption
  · rfl

@[simp] theorem closeReasoning_text : (d.closeReasoning elapsedMs).state.activeTextId = d.state.activeTextId := by
  unfold StreamReduction.closeReasoning
  split <;> rfl

@[simp] theorem closeText_text : (d.closeText elapsedMs).state.activeTextId = none := by
  unfold StreamReduction.closeText
  split
  · assumption
  · rfl

@[simp] theorem closeText_reasoning : (d.closeText elapsedMs).state.activeReasoningId = d.state.activeReasoningId := by
  unfold StreamReduction.closeText
  split <;> rfl

theorem sound_closeOpenContent (h : Sound prior d) : Sound prior (d.closeOpenContent elapsedMs) :=
  sound_closeText (sound_closeReasoning h)

theorem closeOpenContent_closed : openSegment (d.closeOpenContent elapsedMs).state = none :=
  openSegment_none closeText_text (by rw [StreamReduction.closeOpenContent, closeText_reasoning, closeReasoning_reasoning])

theorem sound_openText (h : Sound prior d) (ht : d.state.activeTextId = none) (hr : d.state.activeReasoningId = none) :
    Sound prior (d.openText elapsedMs) := by
  refine sound_snoc (d := d) h rfl ?_ (.inr hr) ?_ (List.append_nil _) (fun _ => List.append_nil _) h.parts
  · rw [openSegment_none ht hr]
    rfl
  · rw [List.range_succ, List.map_append]
    rfl

theorem sound_openReasoning (h : Sound prior d) (ht : d.state.activeTextId = none)
    (hr : d.state.activeReasoningId = none) :
    Sound prior ((d.openReasoning id).emit elapsedMs (.semantic (.reasoningStart id))) := by
  refine sound_bracket (d := d) h rfl ?_ (.inl ht) rfl rfl rfl (fun _ => rfl) rfl h.parts fun _ => rfl
  rw [openSegment_none ht hr]
  exact congrArg some (openSegment_reasoning (by exact ht) rfl).symm

/-! ### Content -/

theorem partText_append (id : JsText) (delta : JsText) (parts : List ReasoningPart) (k : JsText) :
    partText k (appendReasoning id delta parts) = partText k parts ++ if id = k then delta else [] := by
  induction parts with
  | nil => by_cases h : id = k <;> simp [appendReasoning, partText, h]
  | cons part parts ih =>
    simp only [partText] at ih ⊢
    rw [appendReasoning]
    by_cases hid : part.id = id
    · subst hid
      by_cases hk : part.id = k <;> simp [hk]
    · rw [if_neg hid]
      by_cases hk : part.id = k
      · have hne : id ≠ k := fun h => hid (hk.trans h.symm)
        simp [hk, hne]
      · simp only [List.find?_cons, decide_eq_false hk]
        exact ih

theorem appendReasoning_ids (id delta : JsText) (parts : List ReasoningPart) :
    (appendReasoning id delta parts).map ReasoningPart.id =
      if id ∈ parts.map ReasoningPart.id then parts.map ReasoningPart.id else parts.map ReasoningPart.id ++ [id] := by
  induction parts with
  | nil => simp [appendReasoning]
  | cons part parts ih =>
    rw [appendReasoning]
    by_cases hid : part.id = id
    · simp [hid]
    · rw [if_neg hid, List.map_cons, List.map_cons, ih]
      by_cases hmem : id ∈ parts.map ReasoningPart.id
      · rw [if_pos hmem, if_pos (List.mem_cons_of_mem _ hmem)]
      · have hnot : id ∉ part.id :: parts.map ReasoningPart.id := by
          rw [List.mem_cons]
          exact not_or.mpr ⟨fun h => hid h.symm, hmem⟩
        rw [if_neg hmem, if_neg hnot]
        rfl

theorem appendReasoning_nodup {delta : JsText} {parts : List ReasoningPart}
    (h : (parts.map ReasoningPart.id).Nodup) : ((appendReasoning id delta parts).map ReasoningPart.id).Nodup := by
  rw [appendReasoning_ids]
  split
  · exact h
  · rename_i hmem
    exact List.nodup_append.mpr ⟨h, List.nodup_singleton _, by
      intro a ha b hb hab
      rw [List.mem_singleton] at hb
      exact hmem (hb ▸ hab ▸ ha)⟩

theorem signReasoning_ids (id : JsText) (signature redactedData : Option JsText) (parts : List ReasoningPart) :
    (signReasoning id signature redactedData parts).map ReasoningPart.id = parts.map ReasoningPart.id := by
  rw [signReasoning, List.map_map]
  refine List.map_congr_left fun part _ => ?_
  simp only [Function.comp]
  split <;> rfl

theorem partText_sign (id : JsText) (signature redactedData : Option JsText) (parts : List ReasoningPart) (k : JsText) :
    partText k (signReasoning id signature redactedData parts) = partText k parts := by
  induction parts with
  | nil => rfl
  | cons part parts ih =>
    simp only [partText, signReasoning, List.map_cons] at ih ⊢
    by_cases hid : part.id = id
    · by_cases hk : part.id = k
      · simp [hid, hid.symm.trans hk]
      · rw [if_pos hid, List.find?_cons_of_neg (by simpa using hk), List.find?_cons_of_neg (by simpa using hk)]
        exact ih
    · rw [if_neg hid]
      by_cases hk : part.id = k
      · rw [List.find?_cons_of_pos (by simpa using hk), List.find?_cons_of_pos (by simpa using hk)]
      · rw [List.find?_cons_of_neg (by simpa using hk), List.find?_cons_of_neg (by simpa using hk)]
        exact ih

theorem sound_textContent {delta : JsText} {output : Bool} (h : Sound prior d)
    (ht : d.state.activeTextId = some id) :
    Sound prior ((d.setSnapshot fun s =>
      { s with accumulatedText := s.accumulatedText ++ delta, hasStreamOutput := output }).emit elapsedMs
        (.semantic (.textContent d.state.activeTextId delta))) := by
  have hr : d.state.activeReasoningId = none := h.single.resolve_left (by rw [ht]; nofun)
  refine sound_snoc (d := d) h rfl ?_ (.inr hr) (List.append_nil _) ?_ (fun _ => List.append_nil _) h.parts
  · rw [openSegment_text ht, openSegment_text (by exact ht), ht]
    exact if_pos rfl
  · exact congrArg (d.state.snapshot.accumulatedText ++ ·) (List.append_nil delta)

theorem sound_reasoningContent {delta : JsText} (h : Sound prior d) (hr : d.state.activeReasoningId = some id) :
    Sound prior ((d.setSnapshot fun s => { s with reasoning := appendReasoning id delta s.reasoning }).emit elapsedMs
      (.semantic (.reasoningContent id delta))) := by
  have ht : d.state.activeTextId = none := h.single.resolve_right (by rw [hr]; nofun)
  refine sound_snoc (d := d) h rfl ?_ (.inl ht) (List.append_nil _) (List.append_nil _) ?_ (appendReasoning_nodup h.parts)
  · rw [openSegment_reasoning ht hr, openSegment_reasoning (by exact ht) (by exact hr)]
    exact if_pos rfl
  · intro k
    refine Eq.trans ?_ (partText_append id delta _ k).symm
    by_cases hk : id = k <;> simp [reasoningDeltas, hk]

theorem sound_reasoningEnd {signature redactedData : Option JsText} (h : Sound prior d) :
    Sound prior (reduceReasoningEnd elapsedMs id signature redactedData d) := by
  unfold reduceReasoningEnd
  split
  · exact h
  · rename_i hr
    have hr : d.state.activeReasoningId = some id := not_not.mp hr
    have ht : d.state.activeTextId = none := h.single.resolve_right (by rw [hr]; nofun)
    refine sound_bracket (d := d) h rfl ?_ (.inl ht) rfl rfl rfl (fun _ => rfl) rfl ?_ fun k => (partText_sign ..).symm
    · rw [openSegment_reasoning ht hr, openSegment_none (by exact ht) rfl]
      exact if_pos rfl
    · show ((signReasoning _ _ _ _).map _).Nodup
      rw [signReasoning_ids]
      exact h.parts

/-! ### What no client sees -/

/-- The step opens and closes nothing and carries no content. -/
structure Quiet (d e : StreamReduction) : Prop where
  text : e.state.activeTextId = d.state.activeTextId
  reasoning : e.state.activeReasoningId = d.state.activeReasoningId
  sound : ∀ prior, Sound prior d → Sound prior e

theorem Quiet.refl : Quiet d d := ⟨rfl, rfl, fun _ h => h⟩

theorem Quiet.trans {e f : StreamReduction} (h : Quiet d e) (g : Quiet e f) : Quiet d f :=
  ⟨g.text.trans h.text, g.reasoning.trans h.reasoning, fun prior hd => g.sound prior (h.sound prior hd)⟩

theorem Quiet.openSegment {e : StreamReduction} (h : Quiet d e) : openSegment e.state = openSegment d.state := by
  unfold Streaming.openSegment
  rw [h.text, h.reasoning]

variable (d elapsedMs)

theorem quiet_emit (hb : isNeutral body = true) : Quiet d (d.emit elapsedMs body) :=
  ⟨rfl, rfl, fun _ h => sound_neutral h hb⟩

theorem quiet_setSnapshot {f : StreamSnapshot → StreamSnapshot}
    (hacc : (f d.state.snapshot).accumulatedText = d.state.snapshot.accumulatedText)
    (hparts : (f d.state.snapshot).reasoning = d.state.snapshot.reasoning) : Quiet d (d.setSnapshot f) :=
  ⟨rfl, rfl, fun _ h => sound_state h rfl rfl rfl rfl rfl hacc hparts⟩

theorem quiet_setTool (id : JsText) (tool : StreamToolSnapshot) : Quiet d (d.setTool id tool) :=
  ⟨rfl, rfl, fun _ h => sound_state h rfl rfl rfl rfl rfl rfl rfl⟩

theorem quiet_sync (phase : StreamLifecyclePhase) : Quiet d (d.syncToolSnapshot phase) := quiet_setSnapshot d rfl rfl

theorem quiet_progress (progress : Bool) : Quiet d (d.withProgress progress) := ⟨rfl, rfl, fun _ h => h⟩

theorem quiet_markProgress : Quiet d d.markProgress := (quiet_setSnapshot d rfl rfl).trans (quiet_progress _ true)

theorem quiet_failProtocol : Quiet d (d.failProtocol elapsedMs) := by
  refine ⟨rfl, rfl, fun _ h => ?_⟩
  unfold StreamReduction.failProtocol
  exact (quiet_progress _ false).sound _ (sound_neutral (sound_state h rfl rfl rfl rfl rfl rfl rfl) rfl)

theorem quiet_recordProgress : Quiet d (recordProgress d) := by
  unfold recordProgress
  split
  · exact quiet_setSnapshot d rfl rfl
  · exact .refl

theorem quiet_tool (id : JsText) (tool : StreamToolSnapshot) (phase : StreamLifecyclePhase)
    (hb : isNeutral body = true) : Quiet d (((d.setTool id tool).syncToolSnapshot phase).emit elapsedMs body) :=
  (quiet_setTool d id tool).trans ((quiet_sync _ phase).trans (quiet_emit _ elapsedMs hb))

section
variable (json : JsonCodec)

theorem quiet_commitPendingInput (entry : JsText × StreamToolSnapshot) :
    Quiet d (commitPendingInput json elapsedMs d entry) := by
  unfold commitPendingInput
  dsimp only
  split
  · exact .refl
  · split
    · exact (quiet_setTool d _ _).trans (quiet_emit _ elapsedMs rfl)
    · exact (quiet_setTool d _ _).trans (quiet_emit _ elapsedMs rfl)

theorem quiet_commitPendingInputs (entries : List (JsText × StreamToolSnapshot)) :
    Quiet d (entries.foldl (commitPendingInput json elapsedMs) d) := by
  induction entries generalizing d with
  | nil => exact .refl
  | cons entry entries ih => exact (quiet_commitPendingInput d elapsedMs json entry).trans (ih _)

theorem quiet_commitPendingLocalInputs : Quiet d (commitPendingLocalInputs json elapsedMs d) :=
  (quiet_commitPendingInputs d elapsedMs json _).trans (quiet_sync _ _)

theorem quiet_appendToolInput (id delta : JsText) :
    Quiet d (appendToolInput elapsedMs id delta (.toolInputContent id delta) d) := by
  unfold appendToolInput
  split
  · exact quiet_failProtocol d elapsedMs
  · split
    · exact quiet_failProtocol d elapsedMs
    · exact (quiet_tool d elapsedMs _ _ _ rfl).trans (quiet_progress _ _)

theorem quiet_readyToolInput (id name : JsText) (input : JsValue) (providerExecuted dynamic announced : Option Bool) :
    Quiet d (readyToolInput json elapsedMs id name input providerExecuted dynamic
      (.toolInputReady id name input providerExecuted dynamic announced) d) := by
  unfold readyToolInput
  refine Quiet.trans ?_ ((quiet_tool _ elapsedMs _ _ _ rfl).trans (quiet_progress _ true))
  split
  · exact .refl
  · exact (quiet_emit d elapsedMs rfl).trans (quiet_emit _ elapsedMs rfl)

theorem quiet_startProviderTool (id name : JsText) :
    Quiet d (startProviderTool elapsedMs id (.providerToolStart id name) d) := by
  unfold startProviderTool
  split
  · exact quiet_failProtocol d elapsedMs
  · split
    · exact quiet_failProtocol d elapsedMs
    · exact quiet_tool d elapsedMs _ _ _ rfl

theorem quiet_endProviderTool (id : JsText) {event : StreamProtocolEvent} (he : isNeutral (.semantic event) = true) :
    Quiet d (endProviderTool elapsedMs id event d) := by
  unfold endProviderTool
  split
  · exact quiet_failProtocol d elapsedMs
  · split
    · exact quiet_failProtocol d elapsedMs
    · split
      · exact (quiet_emit d elapsedMs he).trans (quiet_progress _ true)
      · exact (quiet_tool d elapsedMs _ _ _ he).trans (quiet_progress _ true)

theorem quiet_reduceCustom (name : JsText) (data : JsValue) : Quiet d (reduceCustom elapsedMs name data d) := by
  unfold reduceCustom
  split
  · split
    · exact quiet_emit d elapsedMs rfl
    · exact .refl
  · exact quiet_emit d elapsedMs rfl

end

/-! ### One event -/

variable {d}

theorem sound_reduceTextContent (delta : JsText) (h : Sound prior d) :
    Sound prior (reduceTextContent elapsedMs delta d) := by
  unfold reduceTextContent
  have hopen : ∃ e, Sound prior e ∧ e.state.activeTextId.isSome ∧
      e = if (d.closeReasoning elapsedMs).state.activeTextId.isSome then d.closeReasoning elapsedMs
        else ((d.closeReasoning elapsedMs).openText elapsedMs).emit elapsedMs (.protocolRepair .implicitTextStart) := by
    split
    · exact ⟨_, sound_closeReasoning h, by assumption, rfl⟩
    · rename_i hnone
      have ht : (d.closeReasoning elapsedMs).state.activeTextId = none := by simpa using hnone
      exact ⟨_, sound_neutral (sound_openText (sound_closeReasoning h) ht closeReasoning_reasoning) rfl, rfl, rfl⟩
  obtain ⟨e, he, hsome, hopened⟩ := hopen
  obtain ⟨id, hid⟩ := Option.isSome_iff_exists.mp hsome
  simp only [← hopened]
  split
  · exact (quiet_markProgress _).sound _ (sound_textContent he hid)
  · exact sound_textContent he hid

theorem sound_reduceReasoningContent (id delta : JsText) (h : Sound prior d) :
    Sound prior (reduceReasoningContent elapsedMs id delta d) := by
  unfold reduceReasoningContent
  have hopen : ∃ e, Sound prior e ∧ e.state.activeReasoningId = some id ∧
      e = if (d.closeText elapsedMs).state.activeReasoningId = some id then d.closeText elapsedMs
        else ((((d.closeText elapsedMs).closeReasoning elapsedMs).openReasoning id).emit elapsedMs
          (.semantic (.reasoningStart id))).emit elapsedMs (.protocolRepair .implicitReasoningStart) := by
    split
    · exact ⟨_, sound_closeText h, by assumption, rfl⟩
    · have hclosed : Sound prior ((d.closeText elapsedMs).closeReasoning elapsedMs) := sound_closeReasoning (sound_closeText h)
      exact ⟨_, sound_neutral (sound_openReasoning hclosed (by simp) closeReasoning_reasoning) rfl, rfl, rfl⟩
  obtain ⟨e, he, hid, hopened⟩ := hopen
  simp only [← hopened]
  split
  · exact (quiet_markProgress _).sound _ (sound_reasoningContent he hid)
  · exact sound_reasoningContent he hid

theorem sound_finishStep (json : JsonCodec) (recover : Bool) (reason : Option FinishReason) (metadata : Option JsValue)
    (h : Sound prior d) : Sound prior (finishStep json elapsedMs recover reason metadata d) := by
  unfold finishStep
  have hclosed : ∃ e, Sound prior e ∧ openSegment e.state = none ∧
      e = if reason = some .toolCalls then commitPendingLocalInputs json elapsedMs (d.closeOpenContent elapsedMs)
        else d.closeOpenContent elapsedMs := by
    split
    · have hq := quiet_commitPendingLocalInputs (d.closeOpenContent elapsedMs) elapsedMs json
      exact ⟨_, hq.sound _ (sound_closeOpenContent h), hq.openSegment.trans closeOpenContent_closed, rfl⟩
    · exact ⟨_, sound_closeOpenContent h, closeOpenContent_closed, rfl⟩
  obtain ⟨e, he, hnone, hcommitted⟩ := hclosed
  simp only [← hcommitted]
  refine sound_bracket (d := e) he rfl ?_ he.single rfl rfl rfl (fun _ => rfl) rfl he.parts fun _ => rfl
  rw [hnone]
  exact congrArg some hnone.symm

theorem sound_reduceProtocolEvent (json : JsonCodec) (recover : Bool) (event : StreamProtocolEvent)
    (h : Sound prior d) : Sound prior (reduceProtocolEvent json elapsedMs recover event d) := by
  cases event with
  | messageStart => exact sound_neutral h rfl
  | stepStart => exact sound_neutral h rfl
  | textStart =>
    exact sound_openText (sound_closeText (sound_closeReasoning h)) (by simp) (by simp)
  | textContent _ delta => exact sound_reduceTextContent elapsedMs delta h
  | textEnd => exact sound_closeText h
  | reasoningStart id => exact sound_openReasoning (sound_closeReasoning (sound_closeText h)) (by simp) (by simp)
  | reasoningContent id delta => exact sound_reduceReasoningContent elapsedMs id delta h
  | reasoningEnd => exact sound_reasoningEnd h
  | toolInputStart => exact (quiet_tool _ elapsedMs _ _ _ rfl).sound _ (sound_closeOpenContent h)
  | toolInputContent => exact (quiet_appendToolInput d elapsedMs _ _).sound _ h
  | toolInputReady => exact (quiet_readyToolInput d elapsedMs json _ _ _ _ _ _).sound _ h
  | toolInputRejected => exact (quiet_tool d elapsedMs _ _ _ rfl).sound _ h
  | providerToolStart => exact (quiet_startProviderTool d elapsedMs _ _).sound _ h
  | providerToolResult => exact (quiet_endProviderTool d elapsedMs _ rfl).sound _ h
  | providerToolDenied => exact (quiet_endProviderTool d elapsedMs _ rfl).sound _ h
  | providerToolCancelled => exact (quiet_endProviderTool d elapsedMs _ rfl).sound _ h
  | stepFinish => exact sound_finishStep elapsedMs json recover _ _ h
  | custom => exact (quiet_reduceCustom d elapsedMs _ _).sound _ h

end

end Veryfront.Agent.Streaming
