import Veryfront.Agent.AgUi.Bracketing
import Veryfront.Agent.Conversation.RunEventEncoder

/-!
# One reasoning segment in both encodings

Replay matches a live span to a stored one by its identifier. The durable encoder numbers the segments of each
message, the live one those of the run, so the two agree as long as the segments all come under one message.
-/

namespace Veryfront.Agent.AgUi

open Lib Lib.Emitter

section
variable {M R : Type} (host : AgUiHost M R) {n : Nat}

/-! ## Events that leave the spans alone -/

/-- No span is open, and there have been so many. -/
structure Spanless (n : Nat) (state : AgUiEncoderState M) : Prop where
  closed : state.reasoningMessageId = none
  index : state.reasoningSpanIndex = n

def Keeps (n : Nat) (f : Emit M) : Prop := ∀ state, Spanless n state → Spanless n (f state).1

theorem Keeps.andThen {f g : Emit M} (hf : Keeps n f) (hg : Keeps n g) : Keeps n (f.andThen g) :=
  fun state h => hg _ (hf state h)

theorem keeps_emit (event : AgUiEncodedEvent M) : Keeps n (emit event) := fun _ h => h

theorem keeps_sawOutput : Keeps (M := M) n sawOutput := fun _ h => ⟨h.closed, h.index⟩

variable {state : AgUiEncoderState M}

theorem spanless_getMessageId (event : RuntimeStreamEvent) (h : Spanless n state) :
    Spanless n (getMessageId host state event).1 := by
  obtain ⟨messageId, count, hget, -⟩ := getMessageId_spec host event state
  rw [hget]
  exact ⟨h.closed, h.index⟩

theorem spanless_textContentIndexed (known : Option JsText) (h : Spanless n state) :
    Spanless n (textContentIndexed state known).1 := by
  obtain ⟨contentId, index, hindexed⟩ := textContentIndexed_spec state known
  rw [hindexed]
  exact ⟨h.closed, h.index⟩

theorem spanless_getTextMessageIdentity (event : RuntimeStreamEvent) (h : Spanless n state) :
    Spanless n (getTextMessageIdentity host state event).1 := by
  obtain ⟨messageId, contentId, count, index, hget, -⟩ := getTextMessageIdentity_spec host event state
  rw [hget]
  exact ⟨h.closed, h.index⟩

theorem keeps_closeOpenTextEvent : Keeps n (closeOpenTextEvent host) := by
  intro state h
  unfold closeOpenTextEvent
  split
  · have hshut : Spanless n { state with textOpen := false } := ⟨h.closed, h.index⟩
    have hmid := spanless_textContentIndexed state.activeTextContentId (spanless_getMessageId host bareTextEnd hshut)
    exact ⟨hmid.closed, hmid.index⟩
  · exact h

theorem keeps_closeOpenReasoningEvent : Keeps (M := M) n closeOpenReasoningEvent := by
  intro state h
  simp only [closeOpenReasoningEvent, h.closed]
  exact h

theorem keeps_closeOpen : Keeps n (closeOpen host) :=
  (keeps_closeOpenTextEvent host).andThen keeps_closeOpenReasoningEvent

theorem keeps_openText (event : RuntimeStreamEvent) : Keeps n (openText host event) := by
  intro state h
  have hmid := spanless_getTextMessageIdentity host event h
  exact ⟨hmid.closed, hmid.index⟩

theorem keeps_mapTextStartEvent (event : RuntimeStreamEvent) : Keeps n (mapTextStartEvent host event) := by
  refine keeps_closeOpenReasoningEvent.andThen fun state h => ?_
  split
  · split
    · exact h
    · exact ((keeps_closeOpenTextEvent host).andThen (keeps_openText host event)) state h
  · exact keeps_openText host event state h

theorem keeps_appendText (event : RuntimeStreamEvent) : Keeps n (appendText host event) := by
  intro state h
  have hmid := spanless_getTextMessageIdentity host event h
  unfold appendText
  dsimp only
  split <;> exact ⟨hmid.closed, hmid.index⟩

theorem keeps_mapTextDeltaEvent (event : RuntimeStreamEvent) : Keeps n (mapTextDeltaEvent host event) := by
  refine keeps_closeOpenReasoningEvent.andThen fun state h => ?_
  split
  · exact ((keeps_closeOpenTextEvent host).andThen (keeps_appendText host event)) state h
  · exact keeps_appendText host event state h

theorem keeps_mapTextEndEvent (event : RuntimeStreamEvent) : Keeps n (mapTextEndEvent host event) := by
  intro state h
  unfold mapTextEndEvent
  split
  · have hmid := spanless_getTextMessageIdentity host event h
    exact ⟨hmid.closed, hmid.index⟩
  · exact h

theorem keeps_report (event : AgUiEncodedEvent M) :
    Keeps n (sawOutput.andThen ((closeOpen host).andThen (emit event))) :=
  keeps_sawOutput.andThen ((keeps_closeOpen host).andThen (keeps_emit event))

theorem keeps_closeOpenToolInput (event : RuntimeStreamEvent) : Keeps (M := M) n (closeOpenToolInput event) := by
  intro state h
  unfold closeOpenToolInput
  split
  · exact h
  · split
    · exact ⟨h.closed, h.index⟩
    · exact h

theorem spanless_mapToolInputAvailableEvent {event : RuntimeStreamEvent} {state' : AgUiEncoderState M}
    {events : List (AgUiEncodedEvent M)} (hmap : mapToolInputAvailableEvent host event state = some (state', events))
    (h : Spanless n state) : Spanless n state' := by
  obtain ⟨⟨mid, completed⟩, hcomplete, hpair⟩ := Option.map_eq_some_iff.mp hmap
  obtain ⟨rfl, -⟩ := Prod.mk.inj hpair
  have hmid := (keeps_sawOutput.andThen (keeps_closeOpen host)) state h
  have hunseen := (completeToolInput_quiet host hcomplete).1
  exact ⟨hunseen.reasoningMessageId.trans hmid.closed, hunseen.reasoningSpanIndex.trans hmid.index⟩

theorem keeps_mapToolInputStartEvent (event : RuntimeStreamEvent) : Keeps n (mapToolInputStartEvent host event) :=
  (keeps_closeOpen host).andThen (keeps_sawOutput.andThen fun _ h => ⟨h.closed, h.index⟩)

theorem keeps_mapToolInputDeltaEvent (event : RuntimeStreamEvent) : Keeps n (mapToolInputDeltaEvent host event) := by
  refine Keeps.andThen (fun _ h => ?_) ((keeps_closeOpen host).andThen (keeps_emit _))
  exact ⟨h.closed, h.index⟩

theorem keeps_mapToolOutputAvailableEvent (event : RuntimeStreamEvent) : Keeps n (mapToolOutputAvailableEvent host event) := by
  intro state h
  unfold mapToolOutputAvailableEvent
  split
  · exact h
  · exact keeps_report host _ state h

theorem keeps_mapToolOutputErrorEvent (event : RuntimeStreamEvent) : Keeps n (mapToolOutputErrorEvent host event) :=
  keeps_sawOutput.andThen ((keeps_closeOpen host).andThen ((keeps_closeOpenToolInput event).andThen (keeps_emit _)))

theorem keeps_nextStep (event : RuntimeStreamEvent) : Keeps n (nextStep host event) := by
  intro state h
  unfold nextStep
  dsimp only
  split <;> exact ⟨h.closed, h.index⟩

theorem keeps_finishStep : Keeps (M := M) n finishStep := fun _ h => ⟨h.closed, h.index⟩

theorem keeps_nativeOrCustom (name : JsText) (value : JsValue) : Keeps n (nativeOrCustom host name value) := by
  intro state h
  unfold nativeOrCustom
  split <;> exact h

theorem keeps_mapDataPart (name : JsText) (event : RuntimeStreamEvent) : Keeps n (mapDataPart host name event) := by
  intro state h
  unfold mapDataPart
  split
  · exact h
  · refine keeps_nativeOrCustom host name _ _ ?_
    split
    · exact ⟨h.closed, h.index⟩
    · exact h

theorem keeps_mapErrorEvent (event : RuntimeStreamEvent) : Keeps n (mapErrorEvent host event) := by
  refine Keeps.andThen (fun _ h => ?_) ((keeps_closeOpen host).andThen (keeps_emit _))
  exact ⟨h.closed, h.index⟩

def EventKind.isReasoning : EventKind → Bool
  | .reasoningStart | .reasoningDelta | .reasoningEnd => true
  | _ => false

theorem spanless_map {event : RuntimeStreamEvent} {state' : AgUiEncoderState M} {events : List (AgUiEncodedEvent M)}
    (hkind : event.kind.isReasoning = false) (hmap : mapRuntimeStreamEventToAgUiEvents host state event = some (state', events))
    (h : Spanless n state) : Spanless n state' := by
  have hkeeps : ∀ {f : Emit M}, Keeps n f → some (f state) = some (state', events) → Spanless n state' := by
    intro f hf heq
    rw [← (Prod.mk.inj (Option.some.inj heq)).1]
    exact hf state h
  unfold mapRuntimeStreamEventToAgUiEvents at hmap
  cases hk : event.kind with
  | reasoningStart | reasoningDelta | reasoningEnd => simp [hk, EventKind.isReasoning] at hkind
  | toolInputAvailable =>
    simp only [hk] at hmap
    exact spanless_mapToolInputAvailableEvent host hmap h
  | toolInputError =>
    simp only [hk] at hmap
    obtain ⟨⟨mid, completed⟩, hcomplete, hpair⟩ := Option.map_eq_some_iff.mp hmap
    obtain ⟨rfl, -⟩ := Prod.mk.inj hpair
    exact spanless_mapToolInputAvailableEvent host hcomplete h
  | messageStart =>
    simp only [hk] at hmap
    rw [← (Prod.mk.inj (Option.some.inj hmap)).1]
    exact spanless_getMessageId host event h
  | manualPause | messageFinish | data | unknown =>
    simp only [hk] at hmap
    rw [← (Prod.mk.inj (Option.some.inj hmap)).1]
    exact ⟨h.closed, h.index⟩
  | dataPart name =>
    simp only [hk] at hmap
    exact hkeeps (keeps_mapDataPart host name event) hmap
  | file =>
    simp only [hk] at hmap
    exact hkeeps (keeps_sawOutput.andThen (keeps_nativeOrCustom host _ _)) hmap
  | textStart =>
    simp only [hk] at hmap
    exact hkeeps (keeps_mapTextStartEvent host event) hmap
  | textDelta =>
    simp only [hk] at hmap
    exact hkeeps (keeps_mapTextDeltaEvent host event) hmap
  | textEnd =>
    simp only [hk] at hmap
    exact hkeeps (keeps_mapTextEndEvent host event) hmap
  | toolInputStart =>
    simp only [hk] at hmap
    exact hkeeps (keeps_mapToolInputStartEvent host event) hmap
  | toolInputDelta =>
    simp only [hk] at hmap
    exact hkeeps (keeps_mapToolInputDeltaEvent host event) hmap
  | toolOutputAvailable =>
    simp only [hk] at hmap
    exact hkeeps (keeps_mapToolOutputAvailableEvent host event) hmap
  | toolOutputError =>
    simp only [hk] at hmap
    exact hkeeps (keeps_mapToolOutputErrorEvent host event) hmap
  | toolOutputDenied =>
    simp only [hk] at hmap
    exact hkeeps (keeps_report host _) hmap
  | stepStart =>
    simp only [hk] at hmap
    exact hkeeps ((keeps_closeOpen host).andThen (keeps_nextStep host event)) hmap
  | stepEnd =>
    simp only [hk] at hmap
    exact hkeeps ((keeps_closeOpen host).andThen keeps_finishStep) hmap
  | error =>
    simp only [hk] at hmap
    exact hkeeps (keeps_mapErrorEvent host event) hmap

/-! ## A span -/

def reasoningMessageIdOf : AgUiEncodedEvent M → Option JsText
  | .reasoningMessageStart messageId _ | .reasoningMessageContent messageId _ _ | .reasoningMessageEnd messageId _ =>
    some messageId
  | _ => none

structure InSpan (messageId : JsText) (n : Nat) (state : AgUiEncoderState M) : Prop where
  text : state.textOpen = false
  reasoning : state.reasoningMessageId = some messageId
  index : state.reasoningSpanIndex = n

theorem closeOpenTextEvent_shut (state : AgUiEncoderState M) :
    (closeOpenTextEvent host state).1.textOpen = false ∧ (closeOpenTextEvent host state).2.filterMap reasoningMessageIdOf = [] := by
  unfold closeOpenTextEvent
  split
  · obtain ⟨messageId, count, hget, -⟩ := getMessageId_spec host bareTextEnd { state with textOpen := false }
    rw [hget]
    dsimp only
    obtain ⟨contentId, index, hindexed⟩ := textContentIndexed_spec
      { state with textOpen := false, messageId := some messageId, uuidCount := count } state.activeTextContentId
    rw [hindexed]
    exact ⟨rfl, rfl⟩
  · next hopen => exact ⟨eq_false_of_ne_true hopen, rfl⟩

theorem closeOpen_shut (h : Spanless n state) :
    (closeOpen host state).1.textOpen = false ∧ (closeOpen host state).2.filterMap reasoningMessageIdOf = [] := by
  obtain ⟨htext, hevents⟩ := closeOpenTextEvent_shut host state
  have hclosed := (keeps_closeOpenTextEvent host state h).closed
  simp only [closeOpen, Emitter.andThen, closeOpenReasoningEvent, hclosed, List.append_nil]
  exact ⟨htext, hevents⟩

theorem mapReasoningStartEvent_span (event : RuntimeStreamEvent) (h : Spanless n state) :
    let messageId := reasoningSpanId (closeOpen host state).1.messageId n
    InSpan messageId (n + 1) (mapReasoningStartEvent host event state).1 ∧
      (mapReasoningStartEvent host event state).2.filterMap reasoningMessageIdOf = [messageId] := by
  obtain ⟨htext, hevents⟩ := closeOpen_shut host h
  have hindex := (keeps_closeOpen host state h).index
  simp only [mapReasoningStartEvent, Emitter.andThen, sawOutput, update, startReasoning, openReasoningMessageId,
    List.filterMap_append, hevents, hindex]
  exact ⟨⟨htext, rfl, rfl⟩, rfl⟩

theorem mapReasoningDeltaEvent_span (event : RuntimeStreamEvent) {messageId : JsText}
    (h : InSpan messageId n state) :
    InSpan messageId n (mapReasoningDeltaEvent host event state).1 ∧
      (mapReasoningDeltaEvent host event state).2.filterMap reasoningMessageIdOf = [messageId] := by
  obtain ⟨htext, hreasoning, hindex⟩ := h
  have hshut : closeOpenTextEvent host state = (state, []) := by simp [closeOpenTextEvent, htext]
  have hopen : ensureReasoning event { state with sawVisibleOutput := true } = ({ state with sawVisibleOutput := true }, []) := by
    simp [ensureReasoning, hreasoning]
  have happend : appendReasoning event { state with sawVisibleOutput := true } =
      ({ state with sawVisibleOutput := true },
        [.reasoningMessageContent messageId (truthy state.activeReasoningContentId) (deltaOf event)]) := by
    simp only [appendReasoning, hreasoning]
  simp only [mapReasoningDeltaEvent, Emitter.andThen, hshut, sawOutput, update, hopen, happend]
  exact ⟨⟨htext, hreasoning, hindex⟩, rfl⟩

theorem closeOpenReasoningEvent_span {messageId : JsText} (h : InSpan messageId n state) :
    Spanless n (closeOpenReasoningEvent state).1 ∧
      (closeOpenReasoningEvent state).2.filterMap reasoningMessageIdOf = [messageId] := by
  simp only [closeOpenReasoningEvent, h.reasoning]
  exact ⟨⟨rfl, h.index⟩, rfl⟩

end

end Veryfront.Agent.AgUi

namespace Veryfront.Agent.Conversation

open Lib Lib.Emitter
open AgUi

/-! ## Segments -/

def ChatStreamEvent.isReasoning : ChatStreamEvent → Bool
  | .reasoningStart _ | .reasoningDelta _ _ | .reasoningEnd .. => true
  | _ => false

inductive ReasoningItem
  | segment (id : JsText) (deltas : List JsText) (signature redactedData : Option JsText)
  | other (chunk : ChatStreamEvent) (h : chunk.isReasoning = false)

def segmentRest (id : JsText) (deltas : List JsText) (signature redactedData : Option JsText) : List ChatStreamEvent :=
  deltas.map (.reasoningDelta id) ++ [.reasoningEnd id signature redactedData]

def ReasoningItem.chunks : ReasoningItem → List ChatStreamEvent
  | .segment id deltas signature redactedData => .reasoningStart id :: segmentRest id deltas signature redactedData
  | .other chunk _ => [chunk]

theorem kind_reasoningStart (id : JsText) :
    (normalizeChatUiMessageChunkToAgUiRuntimeEvent (.reasoningStart id)).kind = .reasoningStart := rfl

theorem kind_reasoningDelta (id delta : JsText) :
    (normalizeChatUiMessageChunkToAgUiRuntimeEvent (.reasoningDelta id delta)).kind = .reasoningDelta := rfl

theorem kind_reasoningEnd (id : JsText) (signature redactedData : Option JsText) :
    (normalizeChatUiMessageChunkToAgUiRuntimeEvent (.reasoningEnd id signature redactedData)).kind = .reasoningEnd := rfl

theorem head_of_isReasoning {event : RuntimeStreamEvent} (h : event.kind.isReasoning = true) : event.type.head? = some 114 := by
  have hentries : ∀ e ∈ eventKinds, e.2.isReasoning = true → (js e.1).head? = some 114 := by decide
  rw [RuntimeStreamEvent.kind] at h
  split at h
  · cases h
  split at h
  · cases h
  cases hfind : eventKinds.find? fun e => js e.1 = event.type with
  | none =>
    rw [hfind] at h
    cases h
  | some e =>
    rw [hfind] at h
    have htype : js e.1 = event.type := by simpa using List.find?_some hfind
    rw [← htype]
    exact hentries e (List.mem_of_find?_eq_some hfind) h

theorem kind_other {chunk : ChatStreamEvent} (h : chunk.isReasoning = false) :
    (normalizeChatUiMessageChunkToAgUiRuntimeEvent chunk).kind.isReasoning = false := by
  cases chunk with
  | reasoningStart | reasoningDelta | reasoningEnd => cases h
  | data name data =>
    have hpart : (js "data-").isPrefixOf (js "data-" ++ name) = true := List.isPrefixOf_iff_prefix.mpr (List.prefix_append ..)
    simp only [normalizeChatUiMessageChunkToAgUiRuntimeEvent, RuntimeStreamEvent.kind, hpart, if_true]
    split <;> rfl
  | _ =>
    refine eq_false_of_ne_true fun h => absurd (head_of_isReasoning h) ?_
    dsimp only [normalizeChatUiMessageChunkToAgUiRuntimeEvent]
    rw [js_ofList]
    decide

structure ShownSegment (υ : Type) where
  under : υ
  deltas : Nat
  ids : List JsText

/-- The identifiers are those that `number` gives, from the messages of the segments before and that of the segment. -/
def Numbered {υ : Type} (number : List υ → υ → JsText) (shown : List (ShownSegment υ)) : Prop :=
  ∀ k (hk : k < shown.length), shown[k].ids =
    List.replicate (shown[k].deltas + 2) (number ((shown.map ShownSegment.under).take k) shown[k].under)

theorem Numbered.snoc {υ : Type} {number : List υ → υ → JsText} {shown : List (ShownSegment υ)} (h : Numbered number shown)
    (under : υ) (deltas : Nat) :
    Numbered number (shown ++ [⟨under, deltas,
      List.replicate (deltas + 2) (number (shown.map ShownSegment.under) under)⟩]) := by
  intro k hk
  have htake : k ≤ shown.length := by
    rw [List.length_append, List.length_singleton] at hk
    omega
  rw [List.map_append, List.take_append_of_le_length (by rw [List.length_map]; exact htake)]
  obtain hlt | rfl := htake.lt_or_eq
  · simp only [List.getElem_append_left hlt]
    exact h k hlt
  · simp [List.take_of_length_le]

def ReasoningItem.deltaCounts : ReasoningItem → List Nat
  | .segment _ deltas _ _ => [deltas.length]
  | .other _ _ => []

/-! ## The durable encoding -/

namespace ConversationRunEventEncoder

variable (host : RunEventHost)

def reasoningContentIdOf : ConversationRunEvent → Option JsText
  | .reasoningMessageStart _ contentId | .reasoningMessageContent _ contentId _ | .reasoningMessageEnd _ contentId =>
    some contentId
  | _ => none

/-- A segment comes under the active message, or under its own part id. -/
def shows (encoder : ConversationRunEventEncoder) (item : ReasoningItem) :
    Option (ConversationRunEventEncoder × List (ShownSegment JsText)) :=
  let (next, events) := encodeConversationRunEvents host encoder item.chunks
  some (next, match item with
    | .segment id deltas _ _ =>
      [⟨encoder.activeMessageId.getD id, deltas.length, events.filterMap reasoningContentIdOf⟩]
    | .other _ _ => [])

def durableNumber (before : List JsText) (messageId : JsText) : JsText := reasoningContentId messageId (before.count messageId)

variable {encoder : ConversationRunEventEncoder}

theorem encode_rest {id contentId : JsText}
    (hopen : encoder.openReasoningContentIds.get? id = some contentId) (deltas : List JsText)
    (signature redactedData : Option JsText) :
    ∃ events, encodeConversationRunEvents host encoder (segmentRest id deltas signature redactedData) =
        ({ encoder with openReasoningContentIds := encoder.openReasoningContentIds.erase id }, events) ∧
      events.filterMap reasoningContentIdOf = List.replicate (deltas.length + 1) contentId := by
  have hcontains : encoder.openReasoningContentIds.contains id = true := by rw [OrdMap.contains, hopen]; rfl
  induction deltas with
  | nil =>
    have hlast : encoder.encodeChunk host (.reasoningEnd id signature redactedData) =
        ({ encoder with openReasoningContentIds := encoder.openReasoningContentIds.erase id },
          [.reasoningMessageEnd (encoder.activeMessageId.getD id) contentId]) := by
      simp [encodeChunk, getReasoningMessagePayload, hopen, hcontains]
    refine ⟨[.reasoningMessageEnd (encoder.activeMessageId.getD id) contentId], ?_, rfl⟩
    rw [segmentRest, List.map_nil, List.nil_append, encodeConversationRunEvents, hlast]
    rfl
  | cons delta deltas ih =>
    obtain ⟨events, hrest, hids⟩ := ih
    have hfirst : encoder.encodeChunk host (.reasoningDelta id delta) =
        (encoder, [.reasoningMessageContent (encoder.activeMessageId.getD id) contentId delta]) := by
      simp [encodeChunk, getReasoningMessagePayload, hopen]
    refine ⟨.reasoningMessageContent (encoder.activeMessageId.getD id) contentId delta :: events, ?_, ?_⟩
    · rw [segmentRest] at hrest
      rw [segmentRest, List.map_cons, List.cons_append, encodeConversationRunEvents, hfirst]
      simp only [hrest]
      rfl
    · have hid : reasoningContentIdOf (.reasoningMessageContent (encoder.activeMessageId.getD id) contentId delta) =
          some contentId := rfl
      rw [List.filterMap_cons_some hid, hids]
      rfl

theorem encode_segment
    (hclosed : ∀ id, encoder.openReasoningContentIds.get? id = none) (id : JsText) (deltas : List JsText)
    (signature redactedData : Option JsText) :
    let messageId := encoder.activeMessageId.getD id
    let ordinal := (encoder.reasoningSegmentCounts.get? messageId).getD 0
    ∃ next events, encodeConversationRunEvents host encoder
        (ReasoningItem.segment id deltas signature redactedData).chunks = (next, events) ∧
      (∀ id, next.openReasoningContentIds.get? id = none) ∧
      next.reasoningSegmentCounts = encoder.reasoningSegmentCounts.set messageId (ordinal + 1) ∧
      events.filterMap reasoningContentIdOf = List.replicate (deltas.length + 2) (reasoningContentId messageId ordinal) := by
  intro messageId ordinal
  let opened : ConversationRunEventEncoder :=
    { encoder with
      reasoningSegmentCounts := encoder.reasoningSegmentCounts.set messageId (ordinal + 1)
      openReasoningContentIds := encoder.openReasoningContentIds.set id (reasoningContentId messageId ordinal) }
  have hstart : encoder.encodeChunk host (.reasoningStart id) =
      (opened, [.reasoningMessageStart messageId (reasoningContentId messageId ordinal)]) := by
    simp only [encodeChunk, getReasoningMessagePayload, hclosed id]
    rfl
  have hopen : opened.openReasoningContentIds.get? id = some (reasoningContentId messageId ordinal) := by simp [opened]
  obtain ⟨events, hrest, hids⟩ := encode_rest host hopen deltas signature redactedData
  refine ⟨{ opened with openReasoningContentIds := opened.openReasoningContentIds.erase id },
    .reasoningMessageStart messageId (reasoningContentId messageId ordinal) :: events, ?_, ?_, rfl, ?_⟩
  · rw [ReasoningItem.chunks, encodeConversationRunEvents, hstart]
    simp only [hrest]
    rfl
  · intro id'
    simp [opened, hclosed]
  · have hid : reasoningContentIdOf (.reasoningMessageStart messageId (reasoningContentId messageId ordinal)) =
        some (reasoningContentId messageId ordinal) := rfl
    rw [List.filterMap_cons_some hid, hids]
    rfl

def LeavesSegments (encoder : ConversationRunEventEncoder) (encoded : Encoded) : Prop :=
  encoded.1.openReasoningContentIds = encoder.openReasoningContentIds ∧
    encoded.1.reasoningSegmentCounts = encoder.reasoningSegmentCounts

theorem leaves_nativeOrCustom (encoder : ConversationRunEventEncoder) (name : JsText) (value : JsValue) :
    LeavesSegments encoder (encoder.nativeOrCustom host name value) := by
  unfold nativeOrCustom
  split <;> exact ⟨rfl, rfl⟩

theorem encode_other {chunk : ChatStreamEvent} (h : chunk.isReasoning = false) :
    LeavesSegments encoder (encoder.encodeChunk host chunk) := by
  cases chunk with
  | reasoningStart | reasoningDelta | reasoningEnd => cases h
  | toolOutputAvailable toolCallId output preliminary providerExecuted =>
    simp only [encodeChunk]
    split <;> exact ⟨rfl, rfl⟩
  | sourceUrl | sourceDocument | file => exact leaves_nativeOrCustom host encoder _ _
  | data name data =>
    simp only [encodeChunk]
    split
    · exact ⟨rfl, rfl⟩
    · unfold encodeCustomDataEvent
      split
      · exact ⟨rfl, rfl⟩
      · exact leaves_nativeOrCustom host encoder name data
  | _ => exact ⟨rfl, rfl⟩

structure Shown (items : List ReasoningItem) (encoder : ConversationRunEventEncoder) (shown : List (ShownSegment JsText)) :
    Prop where
  closed : ∀ id, encoder.openReasoningContentIds.get? id = none
  counts : ∀ messageId, (encoder.reasoningSegmentCounts.get? messageId).getD 0 =
    (shown.map ShownSegment.under).count messageId
  deltas : shown.map ShownSegment.deltas = items.flatMap ReasoningItem.deltaCounts
  numbered : Numbered durableNumber shown

theorem Shown.snoc {items : List ReasoningItem} {next : ConversationRunEventEncoder}
    {shown last : List (ShownSegment JsText)} {item : ReasoningItem} (h : Shown items encoder shown)
    (hs : encoder.shows host item = some (next, last)) : Shown (items ++ [item]) next (shown ++ last) := by
  cases item with
  | other chunk hchunk =>
    obtain ⟨rfl, rfl⟩ := Prod.mk.inj (Option.some.inj hs)
    obtain ⟨hopen, hcounts⟩ : LeavesSegments encoder (encoder.encodeChunk host chunk) := encode_other host hchunk
    rw [List.append_nil]
    refine ⟨fun id => (congrArg (OrdMap.get? · id) hopen).trans (h.closed id), fun messageId => ?_, ?_, h.numbered⟩
    · rw [← h.counts messageId]
      exact congrArg (fun counts : OrdMap JsText Nat => (counts.get? messageId).getD 0) hcounts
    · simp [h.deltas, ReasoningItem.deltaCounts]
  | segment id deltas signature redactedData =>
    obtain ⟨after, events, hencode, hclosed, hcounts, hids⟩ := encode_segment host h.closed id deltas signature redactedData
    simp only [shows, hencode, Option.some.injEq, Prod.mk.injEq] at hs
    obtain ⟨rfl, rfl⟩ := hs
    rw [hids, h.counts]
    refine ⟨hclosed, fun messageId => ?_, ?_, h.numbered.snoc _ _⟩
    · rw [hcounts, OrdMap.get?_set, List.map_append, List.count_append, ← h.counts messageId]
      by_cases hsame : messageId = encoder.activeMessageId.getD id
      · subst hsame
        simp
      · simp [hsame, Ne.symm hsame]
    · simp [h.deltas, ReasoningItem.deltaCounts]

end ConversationRunEventEncoder

/-! ## The live encoding -/

namespace Live

variable {M R : Type} (host : AgUiHost M R)

/-- A segment comes under the message that the live state holds once nothing is open. -/
def shows (state : AgUiEncoderState M) (item : ReasoningItem) :
    Option (AgUiEncoderState M × List (ShownSegment (Option JsText))) :=
  (mapEvents host state (item.chunks.map normalizeChatUiMessageChunkToAgUiRuntimeEvent)).map fun (next, events) =>
    (next, match item with
      | .segment _ deltas _ _ => [⟨(closeOpen host state).1.messageId, deltas.length, events.filterMap reasoningMessageIdOf⟩]
      | .other _ _ => [])

/-- How the live encoder numbers: the ordinal in the run. -/
def liveNumber (before : List (Option JsText)) (messageId : Option JsText) : JsText := reasoningSpanId messageId before.length

variable {state : AgUiEncoderState M}

theorem map_rest {messageId : JsText} {n : Nat} (h : InSpan messageId n state)
    (id : JsText) (deltas : List JsText) (signature redactedData : Option JsText) :
    ∃ next events, mapEvents host state ((segmentRest id deltas signature redactedData).map
        normalizeChatUiMessageChunkToAgUiRuntimeEvent) = some (next, events) ∧ Spanless n next ∧
      events.filterMap reasoningMessageIdOf = List.replicate (deltas.length + 1) messageId := by
  induction deltas generalizing state with
  | nil =>
    obtain ⟨hspanless, hids⟩ := closeOpenReasoningEvent_span h
    have hlast : mapRuntimeStreamEventToAgUiEvents host state
        (normalizeChatUiMessageChunkToAgUiRuntimeEvent (.reasoningEnd id signature redactedData)) =
          some (closeOpenReasoningEvent state) := by
      rw [mapRuntimeStreamEventToAgUiEvents, kind_reasoningEnd]
    refine ⟨_, _, ?_, hspanless, hids⟩
    simp [segmentRest, mapEvents, emitAll, hlast]
  | cons delta deltas ih =>
    obtain ⟨hspan, hid⟩ := mapReasoningDeltaEvent_span host
      (normalizeChatUiMessageChunkToAgUiRuntimeEvent (.reasoningDelta id delta)) h
    obtain ⟨next, events, hrest, hspanless, hids⟩ := ih hspan
    have hfirst : mapRuntimeStreamEventToAgUiEvents host state
        (normalizeChatUiMessageChunkToAgUiRuntimeEvent (.reasoningDelta id delta)) =
          some (mapReasoningDeltaEvent host (normalizeChatUiMessageChunkToAgUiRuntimeEvent (.reasoningDelta id delta)) state) := by
      rw [mapRuntimeStreamEventToAgUiEvents, kind_reasoningDelta]
    refine ⟨next, (mapReasoningDeltaEvent host
      (normalizeChatUiMessageChunkToAgUiRuntimeEvent (.reasoningDelta id delta)) state).2 ++ events, ?_, hspanless, ?_⟩
    · rw [mapEvents, segmentRest] at hrest
      rw [mapEvents, segmentRest, List.map_cons, List.cons_append, List.map_cons, emitAll, hfirst, Option.bind_some, hrest]
      rfl
    · rw [List.filterMap_append, hid, hids]
      rfl

theorem map_segment {n : Nat} (h : Spanless n state) (id : JsText) (deltas : List JsText)
    (signature redactedData : Option JsText) :
    ∃ next events, mapEvents host state ((ReasoningItem.segment id deltas signature redactedData).chunks.map
        normalizeChatUiMessageChunkToAgUiRuntimeEvent) = some (next, events) ∧ Spanless (n + 1) next ∧
      events.filterMap reasoningMessageIdOf =
        List.replicate (deltas.length + 2) (reasoningSpanId (closeOpen host state).1.messageId n) := by
  obtain ⟨hspan, hid⟩ := mapReasoningStartEvent_span host
    (normalizeChatUiMessageChunkToAgUiRuntimeEvent (.reasoningStart id)) h
  obtain ⟨next, events, hrest, hspanless, hids⟩ := map_rest host hspan id deltas signature redactedData
  have hfirst : mapRuntimeStreamEventToAgUiEvents host state
      (normalizeChatUiMessageChunkToAgUiRuntimeEvent (.reasoningStart id)) =
        some (mapReasoningStartEvent host (normalizeChatUiMessageChunkToAgUiRuntimeEvent (.reasoningStart id)) state) := by
    rw [mapRuntimeStreamEventToAgUiEvents, kind_reasoningStart]
  refine ⟨next, (mapReasoningStartEvent host
    (normalizeChatUiMessageChunkToAgUiRuntimeEvent (.reasoningStart id)) state).2 ++ events, ?_, hspanless, ?_⟩
  · rw [mapEvents] at hrest
    rw [mapEvents, ReasoningItem.chunks, List.map_cons, emitAll, hfirst, Option.bind_some, hrest]
    rfl
  · rw [List.filterMap_append, hid, hids]
    rfl

structure Shown (items : List ReasoningItem) (state : AgUiEncoderState M) (shown : List (ShownSegment (Option JsText))) :
    Prop where
  spanless : Spanless shown.length state
  deltas : shown.map ShownSegment.deltas = items.flatMap ReasoningItem.deltaCounts
  numbered : Numbered liveNumber shown

theorem Shown.snoc {items : List ReasoningItem} {next : AgUiEncoderState M}
    {shown last : List (ShownSegment (Option JsText))} {item : ReasoningItem} (h : Shown items state shown)
    (hs : shows host state item = some (next, last)) : Shown (items ++ [item]) next (shown ++ last) := by
  cases item with
  | other chunk hchunk =>
    obtain ⟨⟨after, events⟩, hmap, hpair⟩ := Option.map_eq_some_iff.mp hs
    obtain ⟨rfl, rfl⟩ := Prod.mk.inj hpair
    obtain ⟨mid, first, rest, hstep, hrest, -⟩ := emitAll_cons hmap
    obtain ⟨rfl, -⟩ := Prod.mk.inj (Option.some.inj hrest)
    rw [List.append_nil]
    refine ⟨spanless_map host (kind_other hchunk) hstep h.spanless, ?_, h.numbered⟩
    simp [h.deltas, ReasoningItem.deltaCounts]
  | segment id deltas signature redactedData =>
    obtain ⟨after, events, hmap, hspanless, hids⟩ := map_segment host h.spanless id deltas signature redactedData
    simp only [shows, hmap, Option.map_some, Option.some.injEq, Prod.mk.injEq] at hs
    obtain ⟨rfl, rfl⟩ := hs
    rw [hids]
    have hnumber := h.numbered.snoc (closeOpen host state).1.messageId deltas.length
    rw [liveNumber, List.length_map] at hnumber
    refine ⟨by simpa using hspanless, ?_, hnumber⟩
    simp [h.deltas, ReasoningItem.deltaCounts]

end Live

/-! ## Agreement -/

theorem contentId_index {messageId : JsText} {under : Option JsText} {ordinal index : Nat}
    (h : ConversationRunEventEncoder.reasoningContentId messageId ordinal = reasoningSpanId under index) : ordinal = index := by
  have hlast : js ":reasoning:" = js ":reasoning" ++ [colon] := by decide
  have hdigits : ∀ c ∈ (js (toString ordinal)).reverse, decide (c ≠ colon) = true := fun c hc =>
    decide_eq_true fun heq => colon_notMem_digits ordinal (heq ▸ List.mem_reverse.mp hc)
  have hsuffix : (ConversationRunEventEncoder.reasoningContentId messageId ordinal).reverse.takeWhile (· ≠ colon) =
      (js (toString ordinal)).reverse := by
    rw [ConversationRunEventEncoder.reasoningContentId, List.reverse_append, List.takeWhile_append_of_pos hdigits, hlast]
    simp
  rw [h, reasoningSpanId_suffix] at hsuffix
  exact (Streaming.textId_injective (congrArg (js "text:" ++ ·) (List.reverse_inj.mp hsuffix))).symm

theorem contentId_eq_spanId_iff {messageId : JsText} {under : Option JsText} {ordinal index : Nat} :
    ConversationRunEventEncoder.reasoningContentId messageId ordinal = reasoningSpanId under index ↔
      messageId ≠ [] ∧ under = some messageId ∧ ordinal = index := by
  constructor
  · intro h
    have hindex := contentId_index h
    subst hindex
    rw [ConversationRunEventEncoder.reasoningContentId, reasoningSpanId] at h
    split at h
    · next messageId' htruthy =>
      obtain ⟨hunder, hne⟩ := truthy_eq_some.mp htruthy
      have hsame : messageId = messageId' := List.append_cancel_right (List.append_cancel_right h)
      exact ⟨hsame ▸ hne, hsame ▸ hunder, rfl⟩
    · have hlength := congrArg List.length (List.append_cancel_right h)
      have hlast : (js "reasoning:").length = 10 ∧ (js ":reasoning:").length = 11 := by decide
      rw [List.length_append, hlast.1, hlast.2] at hlength
      omega
  · rintro ⟨hne, rfl, rfl⟩
    rw [reasoningSpanId, truthy_eq_some.mpr ⟨rfl, hne⟩]
    rfl

variable {M R : Type} (durableHost : RunEventHost) (liveHost : AgUiHost M R)

def durableShown (items : List ReasoningItem) : Option (ConversationRunEventEncoder × List (ShownSegment JsText)) :=
  emitAll (ConversationRunEventEncoder.shows durableHost) {} items

def liveShown (metadata : M) (items : List ReasoningItem) : Option (AgUiEncoderState M × List (ShownSegment (Option JsText))) :=
  emitAll (Live.shows liveHost) (createAgUiEncoderState metadata) items

/-- The segments have the same identifiers in both encodings, and no two of them share one. -/
def SameIdentities (durable : List (ShownSegment JsText)) (live : List (ShownSegment (Option JsText))) : Prop :=
  durable.map ShownSegment.ids = live.map ShownSegment.ids ∧ (durable.map ShownSegment.ids).Pairwise List.Disjoint

def OneMessage (durable : List (ShownSegment JsText)) (live : List (ShownSegment (Option JsText))) : Prop :=
  ∃ messageId ≠ [], (∀ segment ∈ durable, segment.under = messageId) ∧ ∀ segment ∈ live, segment.under = some messageId

theorem reasoning_identity_iff {metadata : M} {items : List ReasoningItem} {encoder : ConversationRunEventEncoder}
    {state : AgUiEncoderState M} {durable : List (ShownSegment JsText)} {live : List (ShownSegment (Option JsText))}
    (hdurable : durableShown durableHost items = some (encoder, durable))
    (hlive : liveShown liveHost metadata items = some (state, live)) :
    SameIdentities durable live ↔ OneMessage durable live := by
  have hD : ConversationRunEventEncoder.Shown items encoder durable :=
    emitAll_invariant ConversationRunEventEncoder.Shown ⟨fun _ => rfl, fun _ => rfl, rfl, nofun⟩
      (fun _ _ _ _ _ _ h hs => h.snoc durableHost hs) hdurable
  have hL : Live.Shown items state live :=
    emitAll_invariant Live.Shown ⟨⟨rfl, rfl⟩, rfl, nofun⟩ (fun _ _ _ _ _ _ h hs => h.snoc liveHost hs) hlive
  have hdeltas : durable.map ShownSegment.deltas = live.map ShownSegment.deltas := hD.deltas.trans hL.deltas.symm
  have hlength : durable.length = live.length := by simpa using congrArg List.length hdeltas
  have hcount : ∀ k (hk : k < durable.length) (hk' : k < live.length), durable[k].deltas = live[k].deltas := by
    intro k hk hk'
    have := List.getElem_of_eq hdeltas (by simpa using hk : k < (durable.map ShownSegment.deltas).length)
    simpa using this
  -- Segment by segment, the two ids are one where the message is one and no other came before.
  have hagree : ∀ k (hk : k < durable.length) (hk' : k < live.length), durable[k].ids = live[k].ids ↔
      durable[k].under ≠ [] ∧ live[k].under = some durable[k].under ∧
        ((durable.map ShownSegment.under).take k).count durable[k].under = k := by
    intro k hk hk'
    have hbefore : ((live.map ShownSegment.under).take k).length = k := by
      rw [List.length_take, List.length_map]
      omega
    rw [hD.numbered k hk, hL.numbered k hk', hcount k hk hk', ConversationRunEventEncoder.durableNumber, Live.liveNumber, hbefore,
      ← contentId_eq_spanId_iff, List.replicate_inj]
    simp
  constructor
  · rintro ⟨hids, -⟩
    have hall : ∀ k (hk : k < durable.length) (hk' : k < live.length), durable[k].under ≠ [] ∧
        live[k].under = some durable[k].under ∧
          ((durable.map ShownSegment.under).take k).count durable[k].under = k := by
      intro k hk hk'
      refine (hagree k hk hk').mp ?_
      have := List.getElem_of_eq hids (by simpa using hk : k < (durable.map ShownSegment.ids).length)
      simpa using this
    by_cases hsome : 0 < durable.length
    · have hfirst : ∀ k (hk : k < durable.length), durable[k].under = durable[0].under := by
        intro k hk
        obtain ⟨-, -, hordinal⟩ := hall k hk (hlength ▸ hk)
        have htake : ((durable.map ShownSegment.under).take k).length = k := by
          rw [List.length_take, List.length_map]
          omega
        obtain rfl | hpos := Nat.eq_zero_or_pos k
        · rfl
        · have hsame := List.count_eq_length.mp (hordinal.trans htake.symm)
          refine hsame _ (List.mem_of_getElem (i := 0) (h := by omega) ?_)
          simp
      refine ⟨durable[0].under, (hall 0 hsome (hlength ▸ hsome)).1, fun segment hmem => ?_, fun segment hmem => ?_⟩
      · obtain ⟨k, hk, rfl⟩ := List.getElem_of_mem hmem
        exact hfirst k hk
      · obtain ⟨k, hk, rfl⟩ := List.getElem_of_mem hmem
        rw [(hall k (hlength ▸ hk) hk).2.1, hfirst k (hlength ▸ hk)]
    · have hnil : durable = [] := List.length_eq_zero_iff.mp (by omega)
      have hnil' : live = [] := List.length_eq_zero_iff.mp (by omega)
      rw [hnil, hnil']
      exact ⟨js "m", by decide, nofun, nofun⟩
  · rintro ⟨messageId, hne, hdurableUnder, hliveUnder⟩
    have hunder : ∀ k (hk : k < durable.length), durable[k].under = messageId := fun k hk =>
      hdurableUnder _ (List.getElem_mem hk)
    have hordinal : ∀ k, k ≤ durable.length → ((durable.map ShownSegment.under).take k).count messageId = k := by
      intro k hk
      have htake : ((durable.map ShownSegment.under).take k).length = k := by
        rw [List.length_take, List.length_map]
        omega
      refine (List.count_eq_length.mpr fun under hmem => ?_).trans htake
      obtain ⟨segment, hsegment, rfl⟩ := List.mem_map.mp (List.mem_of_mem_take hmem)
      exact (hdurableUnder segment hsegment).symm
    have hids : ∀ k (hk : k < durable.length), ∀ id ∈ durable[k].ids,
        id = ConversationRunEventEncoder.reasoningContentId messageId k := by
      intro k hk id hid
      rw [hD.numbered k hk, ConversationRunEventEncoder.durableNumber, hunder k hk, hordinal k hk.le] at hid
      exact List.eq_of_mem_replicate hid
    refine ⟨List.ext_getElem (by simpa using hlength) fun k hk hk' => ?_, ?_⟩
    · rw [List.getElem_map, List.getElem_map]
      rw [List.length_map] at hk hk'
      rw [hagree k hk hk', hunder k hk]
      exact ⟨hne, hliveUnder _ (List.getElem_mem hk'), hordinal k hk.le⟩
    · rw [List.pairwise_iff_getElem]
      intro i j hi hj hij id hidi hidj
      rw [List.length_map] at hi hj
      rw [List.getElem_map] at hidi hidj
      have hspan : ConversationRunEventEncoder.reasoningContentId messageId j = reasoningSpanId (some messageId) j :=
        contentId_eq_spanId_iff.mpr ⟨hne, rfl, rfl⟩
      have hsame := contentId_index (((hids i hi id hidi).symm.trans (hids j hj id hidj)).trans hspan)
      omega

/-! ## Two messages in one run -/

def plainRunEventHost : RunEventHost where
  randomUUID n := js (toString n)
  serializeToolInput _ := js "\x7b\x7d"
  serializeConversationToolResultContent _ := (js "null", false)
  isToolResultErrorOutput _ := false
  nativeFrame _ _ _ := none

def announce (messageId : String) : ReasoningItem := .other (.start (some (js messageId)) .null) rfl

def twoMessages : List ReasoningItem :=
  [announce "m1", .segment (js "r") [] none none, announce "m2", .segment (js "r") [] none none]

/-- The second segment is "m2:reasoning:0" in the one encoding and "m2:reasoning:1" in the other. -/
theorem reasoning_identity_two_messages :
    ∃ encoder durable state live, durableShown plainRunEventHost twoMessages = some (encoder, durable) ∧
      liveShown plainHost () twoMessages = some (state, live) ∧
      durable.map ShownSegment.ids = [[js "m1:reasoning:0", js "m1:reasoning:0"], [js "m2:reasoning:0", js "m2:reasoning:0"]] ∧
      live.map ShownSegment.ids = [[js "m1:reasoning:0", js "m1:reasoning:0"], [js "m2:reasoning:1", js "m2:reasoning:1"]] ∧
      ¬ SameIdentities durable live := by
  have hdurable : (durableShown plainRunEventHost twoMessages).map (fun shown => shown.2.map ShownSegment.ids) =
      some [[js "m1:reasoning:0", js "m1:reasoning:0"], [js "m2:reasoning:0", js "m2:reasoning:0"]] := by decide
  have hlive : (liveShown plainHost () twoMessages).map (fun shown => shown.2.map ShownSegment.ids) =
      some [[js "m1:reasoning:0", js "m1:reasoning:0"], [js "m2:reasoning:1", js "m2:reasoning:1"]] := by decide
  obtain ⟨⟨encoder, durable⟩, hshown, hids⟩ := Option.map_eq_some_iff.mp hdurable
  obtain ⟨⟨state, live⟩, hshown', hids'⟩ := Option.map_eq_some_iff.mp hlive
  refine ⟨encoder, durable, state, live, hshown, hshown', hids, hids', fun h => ?_⟩
  have hsame := h.1
  rw [hids, hids'] at hsame
  exact absurd hsame (by decide)

def oneMessage : List ReasoningItem :=
  [announce "m", .segment (js "r") [js "a"] none none, .segment (js "r") [] none none]

theorem reasoning_identity_iff_one_message :
    ∃ encoder durable state live, durableShown plainRunEventHost oneMessage = some (encoder, durable) ∧
      liveShown plainHost () oneMessage = some (state, live) ∧ (SameIdentities durable live ↔ OneMessage durable live) := by
  have hdurable : (durableShown plainRunEventHost oneMessage).isSome := by decide
  have hlive : (liveShown plainHost () oneMessage).isSome := by decide
  obtain ⟨⟨encoder, durable⟩, hshown⟩ := Option.isSome_iff_exists.mp hdurable
  obtain ⟨⟨state, live⟩, hshown'⟩ := Option.isSome_iff_exists.mp hlive
  exact ⟨encoder, durable, state, live, hshown, hshown', reasoning_identity_iff _ _ hshown hshown'⟩

end Veryfront.Agent.Conversation
