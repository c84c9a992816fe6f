import Veryfront.Agent.AgUi.Encoder
import Veryfront.Agent.Streaming.FrameSafety

/-!
# Text and reasoning come in brackets

A client keeps the segment that is open and the ids of the reasoning messages so far. It refuses a content or an
end that is not of the open segment, a start while a segment is open, a reasoning id that was used before, and the
end of the run while a segment is open. A client that is not strict does not look at the message ids of text.
-/

namespace Veryfront.Agent.AgUi

open Lib Lib.Emitter
open Streaming (textId)

/-! ## The client -/

inductive OpenSegment
  | closed
  | text (messageId contentId : JsText)
  | reasoning (messageId : JsText) (contentId : Option JsText)
deriving DecidableEq

/-- The text is open; a strict client compares the message ids too. -/
def OpenSegment.isText (strict : Bool) (messageId contentId : JsText) : OpenSegment → Bool
  | text openMessageId openContentId => openContentId = contentId && (!strict || openMessageId = messageId)
  | _ => false

theorem OpenSegment.isText_of_same {strict : Bool} {messageId openMessageId : JsText} (contentId : JsText)
    (h : strict = true → openMessageId = messageId) :
    (text openMessageId contentId).isText strict messageId contentId = true := by
  cases strict <;> simp_all [isText]

@[simp] theorem OpenSegment.isText_self (strict : Bool) (messageId contentId : JsText) :
    (text messageId contentId).isText strict messageId contentId = true :=
  isText_of_same contentId fun _ => rfl

structure Client where
  segment : OpenSegment
  reasoningIds : List JsText
deriving DecidableEq

namespace Client

def initial : Client := ⟨.closed, []⟩

def advance {M : Type} (strict : Bool) (client : Client) : AgUiEncodedEvent M → Option Client
  | .textMessageStart messageId contentId =>
    if client.segment = .closed then some { client with segment := .text messageId contentId } else none
  | .textMessageContent messageId contentId _ =>
    if client.segment.isText strict messageId contentId then some client else none
  | .textMessageEnd messageId contentId =>
    if client.segment.isText strict messageId contentId then some { client with segment := .closed } else none
  | .reasoningMessageStart messageId contentId =>
    if client.segment = .closed ∧ messageId ∉ client.reasoningIds then
      some ⟨.reasoning messageId contentId, messageId :: client.reasoningIds⟩
    else none
  | .reasoningMessageContent messageId contentId _ =>
    if client.segment = .reasoning messageId contentId then some client else none
  | .reasoningMessageEnd messageId contentId =>
    if client.segment = .reasoning messageId contentId then some { client with segment := .closed } else none
  | .runError _ _ | .runFinished _ _ => if client.segment = .closed then some client else none
  | _ => some client

/-- The client after the events, if it refuses none of them. -/
def reads {M : Type} (strict : Bool) (events : List (AgUiEncodedEvent M)) : Option Client :=
  events.foldlM (advance strict) initial

end Client

/-! ## Span ids -/

def colon : UInt16 := 58

theorem colon_notMem_digits (n : Nat) : colon ∉ js (toString n) := by
  intro hmem
  have hdigit : Char.ofNat colon.toNat ∈ Nat.toDigits 10 n := by
    rw [← Streaming.digits_of_js]
    exact List.mem_map_of_mem hmem
  exact absurd (Nat.isDigit_of_mem_toDigits (by decide) (by decide) hdigit) (by decide)

theorem reasoningSpanId_suffix (messageId : Option JsText) (index : Nat) :
    (reasoningSpanId messageId index).reverse.takeWhile (· ≠ colon) = (js (toString index)).reverse := by
  have hlast : js "reasoning:" = js "reasoning" ++ [colon] ∧ js ":reasoning:" = js ":reasoning" ++ [colon] := by decide
  have hdigits : ∀ c ∈ (js (toString index)).reverse, decide (c ≠ colon) = true := fun c hc =>
    decide_eq_true fun heq => colon_notMem_digits index (heq ▸ List.mem_reverse.mp hc)
  unfold reasoningSpanId
  split
  · rw [List.reverse_append, List.takeWhile_append_of_pos hdigits, hlast.2]
    simp
  · rw [List.reverse_append, List.takeWhile_append_of_pos hdigits, hlast.1]
    simp

theorem reasoningSpanId_index {messageId messageId' : Option JsText} {index index' : Nat}
    (h : reasoningSpanId messageId index = reasoningSpanId messageId' index') : index = index' := by
  have hdigits : (js (toString index)).reverse = (js (toString index')).reverse := by
    rw [← reasoningSpanId_suffix messageId, ← reasoningSpanId_suffix messageId', h]
  have hjs : js (toString index) = js (toString index') := List.reverse_inj.mp hdigits
  exact Streaming.textId_injective (congrArg (js "text:" ++ ·) hjs)

/-! ## What the state shows of the client -/

section Encoder

variable {M R : Type} (host : AgUiHost M R) {strict : Bool}

def Showing (strict : Bool) (state : AgUiEncoderState M) : OpenSegment → Prop
  | .closed => state.textOpen = false ∧ state.reasoningMessageId = none
  | .text messageId contentId =>
    state.textOpen = true ∧ (strict = true → state.messageId = some messageId ∧ messageId ≠ []) ∧
      state.activeTextContentId = some contentId ∧ state.reasoningMessageId = none ∧ state.sawVisibleOutput = true
  | .reasoning messageId contentId =>
    state.textOpen = false ∧ state.reasoningMessageId = some messageId ∧
      truthy state.activeReasoningContentId = contentId ∧ state.sawVisibleOutput = true

/-- The segment that is open is of a kind in `K`, and the run has not failed or paused unless `stopped`. -/
structure Shows (strict : Bool) (K : OpenSegment → Prop) (stopped : Prop) (state : AgUiEncoderState M) (client : Client) :
    Prop where
  segment : Showing strict state client.segment
  kind : K client.segment
  numbered : ∀ id ∈ client.reasoningIds, ∃ messageId index, index < state.reasoningSpanIndex ∧
    id = reasoningSpanId messageId index
  stopped : state.sawTerminalError = true ∨ state.manuallyPaused = true → stopped

def Any (_ : OpenSegment) : Prop := True

def NoText (segment : OpenSegment) : Prop := ∀ messageId contentId, segment ≠ .text messageId contentId

def NoReasoning (segment : OpenSegment) : Prop := ∀ messageId contentId, segment ≠ .reasoning messageId contentId

def Closed (segment : OpenSegment) : Prop := segment = .closed

/-- From a segment of a kind in `K`, the client reads what `f` emits and is left with one of a kind in `K'`. -/
abbrev Brackets (strict : Bool) (stopped : Prop) (K : OpenSegment → Prop) (f : Emit M) (K' : OpenSegment → Prop) : Prop :=
  Meets (Client.advance strict) (Shows strict K stopped) f (Shows strict K' stopped)

variable {K : OpenSegment → Prop} {stopped : Prop}

theorem Shows.mono {K' : OpenSegment → Prop} (hK : ∀ segment, K segment → K' segment) (state : AgUiEncoderState M)
    (client : Client) (h : Shows strict K stopped state client) : Shows strict K' stopped state client :=
  ⟨h.segment, hK _ h.kind, h.numbered, h.stopped⟩

/-- A change of what the client does not see. -/
structure Unseen (state state' : AgUiEncoderState M) : Prop where
  messageId : state'.messageId = state.messageId
  textOpen : state'.textOpen = state.textOpen
  activeTextContentId : state'.activeTextContentId = state.activeTextContentId
  reasoningMessageId : state'.reasoningMessageId = state.reasoningMessageId
  activeReasoningContentId : state'.activeReasoningContentId = state.activeReasoningContentId
  reasoningSpanIndex : state'.reasoningSpanIndex = state.reasoningSpanIndex
  sawVisibleOutput : state.sawVisibleOutput = true → state'.sawVisibleOutput = true
  sawTerminalError : state'.sawTerminalError = state.sawTerminalError
  manuallyPaused : state'.manuallyPaused = state.manuallyPaused

theorem Unseen.refl (state : AgUiEncoderState M) : Unseen state state := ⟨rfl, rfl, rfl, rfl, rfl, rfl, id, rfl, rfl⟩

variable {state : AgUiEncoderState M} {client : Client}

variable {state' : AgUiEncoderState M}

theorem Shows.unseen (h : Shows strict K stopped state client)
    (hunseen : Unseen state state') : Shows strict K stopped state' client := by
  obtain ⟨hid, hopen, hcontent, hreasoning, hreasoningContent, hindex, houtput, herror, hpaused⟩ := hunseen
  refine ⟨?_, h.kind, by rw [hindex]; exact h.numbered, by rw [herror, hpaused]; exact h.stopped⟩
  obtain ⟨segment, ids⟩ := client
  have hsegment := h.segment
  cases segment with
  | closed => exact ⟨hopen.trans hsegment.1, hreasoning.trans hsegment.2⟩
  | text messageId contentId =>
    obtain ⟨hopen', hid', hcontent', hnone, hsaw⟩ := hsegment
    exact ⟨hopen.trans hopen', fun hstrict => ⟨hid.trans (hid' hstrict).1, (hid' hstrict).2⟩, hcontent.trans hcontent',
      hreasoning.trans hnone, houtput hsaw⟩
  | reasoning messageId contentId =>
    obtain ⟨hopen', hid', hcontent', hsaw⟩ := hsegment
    exact ⟨hopen.trans hopen', hreasoning.trans hid', (congrArg truthy hreasoningContent).trans hcontent', houtput hsaw⟩

theorem brackets_any {K' : OpenSegment → Prop} {f : Emit M} (h : Brackets strict stopped K f K') :
    Brackets strict stopped K f Any :=
  h.mono (fun _ _ h => h) (Shows.mono fun _ _ => trivial)

def Ignored (event : AgUiEncodedEvent M) : Prop :=
  ∀ (strict : Bool) (client : Client), client.advance strict event = some client

variable {events : List (AgUiEncodedEvent M)}

theorem reads_ignored (h : ∀ event ∈ events, Ignored event) (client : Client) :
    events.foldlM (Client.advance strict) client = some client := by
  induction events with
  | nil => rfl
  | cons event events ih =>
    rw [List.foldlM_cons, h event List.mem_cons_self strict client]
    exact ih fun e he => h e (List.mem_cons_of_mem event he)

theorem brackets_quiet {f : Emit M} (h : ∀ state, Unseen state (f state).1 ∧ ∀ event ∈ (f state).2, Ignored event) :
    Brackets strict stopped K f K :=
  fun state client hs => ⟨client, reads_ignored (h state).2 client, hs.unseen (h state).1⟩

theorem brackets_emit {event : AgUiEncodedEvent M} (h : Ignored event) : Brackets strict stopped K (emit event) K :=
  brackets_quiet fun state => ⟨.refl state, fun _ he => List.mem_singleton.mp he ▸ h⟩

theorem meets_sawOutput : Brackets (M := M) strict stopped K sawOutput K :=
  brackets_quiet fun _ => ⟨⟨rfl, rfl, rfl, rfl, rfl, rfl, fun _ => rfl, rfl, rfl⟩, nofun⟩

/-! ## Closing -/

theorem truthy_eq_some {text : Option JsText} {t : JsText} : truthy text = some t ↔ text = some t ∧ t ≠ [] := by
  simp [truthy, Option.filter_eq_some_iff]

def NamesMessage (event : RuntimeStreamEvent) : Prop := ∀ id, asString (event.field "messageId") = some id → id ≠ []

/-- The event carries the message id of the state, or none. -/
def SameMessage (state : AgUiEncoderState M) (event : RuntimeStreamEvent) : Prop :=
  ∀ id, asString (event.field "messageId") = some id → state.messageId = some id

theorem getMessageId_spec (event : RuntimeStreamEvent) (state : AgUiEncoderState M) :
    ∃ messageId count, getMessageId host state event =
        ({ state with messageId := some messageId, uuidCount := count }, messageId) ∧
      (NamesMessage event → messageId ≠ []) ∧
      ∀ current, state.messageId = some current → current ≠ [] → SameMessage state event → messageId = current := by
  unfold getMessageId
  cases hexplicit : asString (event.field "messageId") with
  | some id =>
    refine ⟨id, state.uuidCount, rfl, fun hnames => hnames id hexplicit, ?_⟩
    intro current hcurrent _ hsame
    exact Option.some.inj ((hsame id hexplicit).symm.trans hcurrent)
  | none =>
    simp only
    split
    · rename_i id hid
      obtain ⟨hcandidate, hne⟩ := truthy_eq_some.mp hid
      refine ⟨id, state.uuidCount, by rw [hcandidate], fun _ => hne, ?_⟩
      intro current hcurrent hcurrentne _
      rw [if_neg (by rw [truthy_eq_some.mpr ⟨hcurrent, hcurrentne⟩]; exact Option.some_ne_none _), hcurrent] at hcandidate
      exact (Option.some.inj hcandidate).symm
    · rename_i hnone
      refine ⟨host.randomUUID state.uuidCount, state.uuidCount + 1, rfl, fun _ => host.randomUUID_ne_nil _, ?_⟩
      intro current hcurrent hcurrentne _
      have htruthy := truthy_eq_some.mpr ⟨hcurrent, hcurrentne⟩
      rw [if_neg (by rw [htruthy]; exact Option.some_ne_none _), htruthy] at hnone
      cases hnone

theorem meets_closeOpenTextEvent (hK : K .closed) :
    Brackets strict stopped K (closeOpenTextEvent host) fun segment => K segment ∧ NoText segment := by
  rintro state ⟨segment, ids⟩ ⟨hsegment, hkind, hnumbered, hstopped⟩
  cases segment with
  | closed =>
    have hclosed : state.textOpen = false := hsegment.1
    simp only [closeOpenTextEvent, hclosed, Bool.false_eq_true, if_false]
    exact ⟨⟨.closed, ids⟩, rfl, hsegment, ⟨hkind, nofun⟩, hnumbered, hstopped⟩
  | text messageId contentId =>
    obtain ⟨hopen, hid, hcontent, hnone, -⟩ := hsegment
    obtain ⟨id, count, hget, -, hsame⟩ := getMessageId_spec host bareTextEnd { state with textOpen := false }
    have hread : (OpenSegment.text messageId contentId).isText strict id contentId = true :=
      OpenSegment.isText_of_same contentId fun hstrict =>
        (hsame messageId (hid hstrict).1 (hid hstrict).2 fun _ h => nomatch h).symm
    have hclose : closeOpenTextEvent host state =
        ({ state with
            textOpen := false, messageId := some id, uuidCount := count, activeTextContentId := none },
          [.textMessageEnd id contentId]) := by
      unfold closeOpenTextEvent
      rw [if_pos hopen, hget]
      simp only [hcontent, textContentIndexed]
    rw [hclose]
    exact ⟨⟨.closed, ids⟩, by simp [Client.advance, hread], ⟨rfl, hnone⟩, ⟨hK, nofun⟩, hnumbered, hstopped⟩
  | reasoning messageId contentId =>
    have hclosed : state.textOpen = false := hsegment.1
    simp only [closeOpenTextEvent, hclosed, Bool.false_eq_true, if_false]
    exact ⟨⟨.reasoning messageId contentId, ids⟩, rfl, hsegment, ⟨hkind, nofun⟩, hnumbered, hstopped⟩

theorem meets_closeOpenReasoningEvent (hK : K .closed) :
    Brackets (M := M) strict stopped K closeOpenReasoningEvent fun segment => K segment ∧ NoReasoning segment := by
  rintro state ⟨segment, ids⟩ ⟨hsegment, hkind, hnumbered, hstopped⟩
  cases segment with
  | closed =>
    have hnone : state.reasoningMessageId = none := hsegment.2
    simp only [closeOpenReasoningEvent, hnone]
    exact ⟨⟨.closed, ids⟩, rfl, hsegment, ⟨hkind, nofun⟩, hnumbered, hstopped⟩
  | text messageId contentId =>
    have hnone : state.reasoningMessageId = none := hsegment.2.2.2.1
    simp only [closeOpenReasoningEvent, hnone]
    exact ⟨⟨.text messageId contentId, ids⟩, rfl, hsegment, ⟨hkind, nofun⟩, hnumbered, hstopped⟩
  | reasoning messageId contentId =>
    obtain ⟨hopen, hid, hcontent, -⟩ := hsegment
    simp only [closeOpenReasoningEvent, hid, hcontent]
    exact ⟨⟨.closed, ids⟩, by simp [Client.advance], ⟨hopen, rfl⟩, ⟨hK, nofun⟩, hnumbered, hstopped⟩

theorem closed_of_neither {segment : OpenSegment} (htext : NoText segment) (hreasoning : NoReasoning segment) :
    Closed segment := by
  cases segment with
  | closed => rfl
  | text messageId contentId => exact absurd rfl (htext messageId contentId)
  | reasoning messageId contentId => exact absurd rfl (hreasoning messageId contentId)

theorem meets_closeOpen : Brackets strict stopped Any (closeOpen host) Closed := by
  have htext : Brackets strict stopped Any (closeOpenTextEvent host) NoText :=
    (meets_closeOpenTextEvent host trivial).mono (fun _ _ h => h) (Shows.mono fun _ h => h.2)
  have hreasoning : Brackets (M := M) strict stopped NoText closeOpenReasoningEvent Closed :=
    (meets_closeOpenReasoningEvent nofun).mono (fun _ _ h => h) (Shows.mono fun _ h => closed_of_neither h.1 h.2)
  exact htext.andThen hreasoning

/-! ## Text -/

theorem textContentIndexed_spec (state : AgUiEncoderState M) (known : Option JsText) :
    ∃ contentId index, textContentIndexed state known = ({ state with textContentIndex := index }, contentId) := by
  cases known with
  | some contentId => exact ⟨contentId, state.textContentIndex, rfl⟩
  | none => exact ⟨_, _, rfl⟩

theorem getTextMessageIdentity_spec (event : RuntimeStreamEvent) (state : AgUiEncoderState M) :
    ∃ messageId contentId count index, getTextMessageIdentity host state event =
        ({ state with messageId := some messageId, uuidCount := count, textContentIndex := index }, messageId, contentId) ∧
      (NamesMessage event → messageId ≠ []) ∧
      ∀ current, state.messageId = some current → current ≠ [] → SameMessage state event → messageId = current := by
  obtain ⟨messageId, count, hget, hne, hsame⟩ := getMessageId_spec host event state
  unfold getTextMessageIdentity
  rw [hget]
  dsimp only
  generalize (Option.or _ _ : Option JsText) = known
  obtain ⟨contentId, index, hindexed⟩ :=
    textContentIndexed_spec { state with messageId := some messageId, uuidCount := count } known
  rw [hindexed]
  exact ⟨messageId, contentId, count, index, rfl, hne, hsame⟩

variable {event : RuntimeStreamEvent}

theorem sameMessage_of_active (hnames : NamesMessage event)
    (h : isActiveTextIdentity state event = true) : SameMessage state event := by
  intro id hid
  have hcandidate := congrArg Prod.fst (of_decide_eq_true h)
  have hexplicit : nonemptyString (event.field "messageId") = some id := truthy_eq_some.mpr ⟨hid, hnames id hid⟩
  simp only [getCandidateTextMessageIdentity, hexplicit, Option.some_or] at hcandidate
  exact hcandidate.symm

theorem brackets_reopen {f : Emit M} (hf : Brackets strict stopped Closed f Any) :
    Brackets strict stopped NoReasoning ((closeOpenTextEvent host).andThen f) Any := by
  have hclose : Brackets strict stopped NoReasoning (closeOpenTextEvent host) Closed :=
    (meets_closeOpenTextEvent host (K := NoReasoning) nofun).mono (fun _ _ h => h)
      (Shows.mono fun _ h => closed_of_neither h.2 h.1)
  exact hclose.andThen hf

theorem brackets_closeReasoning : Brackets (M := M) strict stopped Any closeOpenReasoningEvent NoReasoning :=
  (meets_closeOpenReasoningEvent (K := Any) trivial).mono (fun _ _ h => h) (Shows.mono fun _ h => h.2)

theorem Shows.closed (h : Shows strict NoReasoning stopped state client)
    (hopen : ¬ state.textOpen = true) : Shows strict Closed stopped state client := by
  refine ⟨h.segment, closed_of_neither ?_ h.kind, h.numbered, h.stopped⟩
  intro messageId contentId heq
  have hsegment := h.segment
  rw [heq] at hsegment
  exact hopen hsegment.1

section Event

variable {event : RuntimeStreamEvent} (hnames : strict = true → NamesMessage event)
include hnames

theorem brackets_openText : Brackets strict stopped Closed (openText host event) Any := by
  rintro state ⟨segment, ids⟩ ⟨hsegment, hkind, hnumbered, hstopped⟩
  obtain rfl := hkind
  obtain ⟨messageId, contentId, count, index, hget, hne, -⟩ := getTextMessageIdentity_spec host event state
  unfold openText
  rw [hget]
  exact ⟨⟨.text messageId contentId, ids⟩, by simp [Client.advance],
    ⟨rfl, fun hstrict => ⟨rfl, hne (hnames hstrict)⟩, rfl, hsegment.2, rfl⟩, trivial, hnumbered, hstopped⟩

theorem brackets_appendText : Brackets strict stopped Closed (appendText host event) Any := by
  rintro state ⟨segment, ids⟩ ⟨hsegment, hkind, hnumbered, hstopped⟩
  obtain rfl := hkind
  obtain ⟨messageId, contentId, count, index, hget, hne, -⟩ := getTextMessageIdentity_spec host event state
  unfold appendText
  rw [hget]
  simp only [hsegment.1, Bool.false_eq_true, if_false]
  exact ⟨⟨.text messageId contentId, ids⟩, by simp [Client.advance],
    ⟨rfl, fun hstrict => ⟨rfl, hne (hnames hstrict)⟩, rfl, hsegment.2, rfl⟩, trivial, hnumbered, hstopped⟩

omit hnames in
theorem brackets_appendText_open
    (h : Shows strict NoReasoning stopped state client) (hopen : state.textOpen = true) (hsame : strict = true → SameMessage state event) :
    ∃ client', (appendText host event state).2.foldlM (Client.advance strict) client = some client' ∧
      Shows strict Any stopped (appendText host event state).1 client' := by
  obtain ⟨segment, ids⟩ := client
  obtain ⟨hsegment, hkind, hnumbered, hstopped⟩ := h
  cases segment with
  | closed => exact absurd (hopen.symm.trans hsegment.1) (by decide)
  | reasoning messageId contentId => exact absurd rfl (hkind messageId contentId)
  | text current currentContent =>
    obtain ⟨-, hid, hcontent, hnone, -⟩ := hsegment
    obtain ⟨messageId, contentId, count, index, hget, -, heq⟩ := getTextMessageIdentity_spec host event state
    have hcurrent : strict = true → messageId = current := fun hstrict =>
      heq current (hid hstrict).1 (hid hstrict).2 (hsame hstrict)
    have hread := OpenSegment.isText_of_same currentContent fun hstrict => (hcurrent hstrict).symm
    unfold appendText
    rw [hget]
    simp only [hopen, if_true, hcontent, Option.getD_some]
    refine ⟨⟨.text current currentContent, ids⟩, by simp [Client.advance, hread],
      ⟨rfl, fun hstrict => ?_, rfl, hnone, rfl⟩, trivial, hnumbered, hstopped⟩
    exact ⟨congrArg some (hcurrent hstrict), (hid hstrict).2⟩

theorem brackets_mapTextStartEvent : Brackets strict stopped Any (mapTextStartEvent host event) Any := by
  refine (brackets_closeReasoning (M := M)).andThen fun state client h => ?_
  by_cases hopen : state.textOpen = true
  · by_cases hactive : isActiveTextIdentity state event = true
    · simp only [hopen, hactive, if_true]
      exact ⟨client, rfl, h.mono (fun _ _ => trivial)⟩
    · simp only [hopen, hactive, if_true]
      exact brackets_reopen host (brackets_openText host hnames) state client h
  · simp only [hopen]
    exact brackets_openText host hnames state client (h.closed hopen)

theorem brackets_mapTextDeltaEvent : Brackets strict stopped Any (mapTextDeltaEvent host event) Any := by
  refine (brackets_closeReasoning (M := M)).andThen fun state client h => ?_
  by_cases hopen : state.textOpen = true
  · by_cases hactive : isActiveTextIdentity state event = true
    · simp only [hopen, hactive, Bool.not_true, Bool.and_false]
      exact brackets_appendText_open host h hopen fun hstrict => sameMessage_of_active (hnames hstrict) hactive
    · simp only [hopen, hactive, Bool.not_false, Bool.and_true, if_true]
      exact brackets_reopen host (brackets_appendText host hnames) state client h
  · simp only [hopen, Bool.false_and]
    exact brackets_appendText host hnames state client (h.closed hopen)

omit hnames in
theorem brackets_mapTextEndEvent (h : Shows strict Any stopped state client)
    (hsame : strict = true → state.textOpen = true → SameMessage state event) :
    ∃ client', (mapTextEndEvent host event state).2.foldlM (Client.advance strict) client = some client' ∧
      Shows strict Any stopped (mapTextEndEvent host event state).1 client' := by
  obtain ⟨segment, ids⟩ := client
  obtain ⟨hsegment, hkind, hnumbered, hstopped⟩ := h
  unfold mapTextEndEvent
  cases segment with
  | closed =>
    rw [if_neg (by rw [hsegment.1]; decide)]
    exact ⟨⟨.closed, ids⟩, rfl, hsegment, hkind, hnumbered, hstopped⟩
  | reasoning messageId contentId =>
    rw [if_neg (by rw [hsegment.1]; decide)]
    exact ⟨⟨.reasoning messageId contentId, ids⟩, rfl, hsegment, hkind, hnumbered, hstopped⟩
  | text current currentContent =>
    obtain ⟨hopen, hid, hcontent, hnone, -⟩ := hsegment
    obtain ⟨messageId, contentId, count, index, hget, -, heq⟩ := getTextMessageIdentity_spec host event state
    have hread := OpenSegment.isText_of_same currentContent fun hstrict =>
      (heq current (hid hstrict).1 (hid hstrict).2 (hsame hstrict hopen)).symm
    rw [if_pos hopen, hget]
    simp only [hcontent, Option.getD_some]
    exact ⟨⟨.closed, ids⟩, by simp [Client.advance, hread], ⟨rfl, hnone⟩, trivial, hnumbered, hstopped⟩

omit hnames in
theorem shows_getMessageId (h : Shows strict Any stopped state client)
    (hsame : strict = true → state.textOpen = true → SameMessage state event) :
    Shows strict Any stopped (getMessageId host state event).1 client := by
  obtain ⟨segment, ids⟩ := client
  obtain ⟨hsegment, hkind, hnumbered, hstopped⟩ := h
  obtain ⟨messageId, count, hget, -, heq⟩ := getMessageId_spec host event state
  rw [hget]
  refine ⟨?_, hkind, hnumbered, hstopped⟩
  cases segment with
  | closed => exact hsegment
  | reasoning _ _ => exact hsegment
  | text current currentContent =>
    obtain ⟨hopen, hid, hrest⟩ := hsegment
    refine ⟨hopen, fun hstrict => ?_, hrest⟩
    obtain rfl := heq current (hid hstrict).1 (hid hstrict).2 (hsame hstrict hopen)
    exact ⟨rfl, (hid hstrict).2⟩

end Event

/-! ## Reasoning -/

theorem truthy_getReasoningContentId (event : RuntimeStreamEvent) :
    truthy (getReasoningContentId event) = getReasoningContentId event := by
  unfold getReasoningContentId
  cases hcontent : nonemptyString (event.field "contentId") with
  | some id => exact truthy_eq_some.mpr ⟨rfl, (truthy_eq_some.mp hcontent).2⟩
  | none =>
    cases hid : nonemptyString (event.field "id") with
    | some id => exact truthy_eq_some.mpr ⟨rfl, (truthy_eq_some.mp hid).2⟩
    | none => rfl

def IsReasoning (segment : OpenSegment) : Prop := ∃ messageId contentId, segment = .reasoning messageId contentId

def ShowsOutput (strict : Bool) (K : OpenSegment → Prop) (stopped : Prop) (state : AgUiEncoderState M)
    (client : Client) : Prop :=
  Shows strict K stopped state client ∧ state.sawVisibleOutput = true

theorem meets_sawOutput_output :
    Meets (Client.advance strict) (Shows (M := M) strict K stopped) sawOutput (ShowsOutput strict K stopped) := by
  intro state client h
  obtain ⟨client', hread, hshows⟩ := meets_sawOutput state client h
  exact ⟨client', hread, hshows, rfl⟩

theorem meets_startReasoning (event : RuntimeStreamEvent) :
    Meets (Client.advance strict) (ShowsOutput (M := M) strict Closed stopped) (startReasoning event) (Shows strict IsReasoning stopped) := by
  rintro state ⟨segment, ids⟩ ⟨⟨hsegment, hkind, hnumbered, hstopped⟩, houtput⟩
  obtain rfl := hkind
  have hfresh : reasoningSpanId state.messageId state.reasoningSpanIndex ∉ ids := by
    intro hmem
    obtain ⟨messageId, index, hlt, heq⟩ := hnumbered _ hmem
    exact absurd (reasoningSpanId_index heq) (Nat.ne_of_gt hlt)
  refine ⟨⟨.reasoning _ (getReasoningContentId event), reasoningSpanId state.messageId state.reasoningSpanIndex :: ids⟩,
    by simp [startReasoning, openReasoningMessageId, Client.advance, hfresh],
    ⟨hsegment.1, rfl, truthy_getReasoningContentId event, houtput⟩, ⟨_, _, rfl⟩, ?_, hstopped⟩
  intro id hid
  rcases List.mem_cons.mp hid with rfl | hid
  · exact ⟨state.messageId, state.reasoningSpanIndex, Nat.lt_succ_self _, rfl⟩
  · obtain ⟨messageId, index, hlt, heq⟩ := hnumbered id hid
    exact ⟨messageId, index, Nat.lt_succ_of_lt hlt, heq⟩

theorem brackets_mapReasoningStartEvent (event : RuntimeStreamEvent) :
    Brackets strict stopped Any (mapReasoningStartEvent host event) Any :=
  ((meets_closeOpen host).andThen (meets_sawOutput_output.andThen (meets_startReasoning event))).mono (fun _ _ h => h)
    (Shows.mono fun _ _ => trivial)

theorem meets_ensureReasoning (event : RuntimeStreamEvent) :
    Meets (Client.advance strict) (ShowsOutput (M := M) strict NoText stopped) (ensureReasoning event) (Shows strict IsReasoning stopped) := by
  rintro state ⟨segment, ids⟩ ⟨h, houtput⟩
  unfold ensureReasoning
  cases segment with
  | closed =>
    rw [if_pos h.segment.2]
    exact meets_startReasoning event state ⟨.closed, ids⟩ ⟨⟨h.segment, rfl, h.numbered, h.stopped⟩, houtput⟩
  | text messageId contentId => exact absurd rfl (h.kind messageId contentId)
  | reasoning messageId contentId =>
    rw [if_neg (by rw [h.segment.2.1]; exact Option.some_ne_none _)]
    exact ⟨⟨.reasoning messageId contentId, ids⟩, rfl, h.segment, ⟨messageId, contentId, rfl⟩, h.numbered, h.stopped⟩

theorem brackets_appendReasoning (event : RuntimeStreamEvent) :
    Brackets (M := M) strict stopped IsReasoning (appendReasoning event) IsReasoning := by
  rintro state ⟨segment, ids⟩ ⟨hsegment, hkind, hnumbered, hstopped⟩
  obtain ⟨messageId, contentId, rfl⟩ := hkind
  obtain ⟨hopen, hid, hcontent, houtput⟩ := hsegment
  unfold appendReasoning
  simp only [hid, hcontent]
  exact ⟨⟨.reasoning messageId contentId, ids⟩, by simp [Client.advance], ⟨hopen, hid, hcontent, houtput⟩,
    ⟨messageId, contentId, rfl⟩, hnumbered, hstopped⟩

theorem brackets_mapReasoningDeltaEvent (event : RuntimeStreamEvent) :
    Brackets strict stopped Any (mapReasoningDeltaEvent host event) Any := by
  have hclose : Brackets strict stopped Any (closeOpenTextEvent host) NoText :=
    (meets_closeOpenTextEvent host (K := Any) trivial).mono (fun _ _ h => h) (Shows.mono fun _ h => h.2)
  exact (hclose.andThen (meets_sawOutput_output.andThen
    ((meets_ensureReasoning event).andThen (brackets_appendReasoning event)))).mono (fun _ _ h => h)
      (Shows.mono fun _ _ => trivial)

/-! ## The other events -/

theorem brackets_closeOpenToolInput (event : RuntimeStreamEvent) :
    Brackets (M := M) strict stopped K (closeOpenToolInput event) K := by
  refine brackets_quiet fun state => ?_
  unfold closeOpenToolInput
  split
  · exact ⟨.refl state, nofun⟩
  · split
    · exact ⟨⟨rfl, rfl, rfl, rfl, rfl, rfl, id, rfl, rfl⟩, fun _ he => List.mem_singleton.mp he ▸ fun _ _ => rfl⟩
    · exact ⟨.refl state, nofun⟩

theorem completeToolInput_quiet (h : completeToolInput host event state = some (state', events)) :
    Unseen state state' ∧ ∀ event ∈ events, Ignored event := by
  unfold completeToolInput at h
  split at h
  · obtain ⟨rfl, rfl⟩ := Prod.mk.inj (Option.some.inj h)
    exact ⟨.refl state, fun _ he => List.mem_singleton.mp he ▸ fun _ _ => rfl⟩
  · simp only at h
    split at h
    · obtain ⟨rfl, rfl⟩ := Prod.mk.inj (Option.some.inj h)
      exact ⟨⟨rfl, rfl, rfl, rfl, rfl, rfl, id, rfl, rfl⟩, fun _ he => List.mem_singleton.mp he ▸ fun _ _ => rfl⟩
    · obtain ⟨delta, -, hpair⟩ := Option.map_eq_some_iff.mp h
      obtain ⟨rfl, rfl⟩ := Prod.mk.inj hpair
      refine ⟨⟨rfl, rfl, rfl, rfl, rfl, rfl, id, rfl, rfl⟩, fun e he => ?_⟩
      simp only [List.mem_cons, List.not_mem_nil, or_false] at he
      obtain rfl | rfl := he <;> exact fun _ _ => rfl

theorem brackets_mapToolInputStartEvent (event : RuntimeStreamEvent) :
    Brackets strict stopped Any (mapToolInputStartEvent host event) Closed :=
  (meets_closeOpen host).andThen (meets_sawOutput.andThen (brackets_quiet fun _ =>
    ⟨⟨rfl, rfl, rfl, rfl, rfl, rfl, id, rfl, rfl⟩, fun _ he => List.mem_singleton.mp he ▸ fun _ _ => rfl⟩))

theorem brackets_mapToolInputDeltaEvent (event : RuntimeStreamEvent) :
    Brackets strict stopped Any (mapToolInputDeltaEvent host event) Closed :=
  (brackets_quiet fun _ =>
      ⟨⟨rfl, rfl, rfl, rfl, rfl, rfl, fun _ => rfl, rfl, rfl⟩, fun _ he => absurd he List.not_mem_nil⟩).andThen
    ((meets_closeOpen host).andThen (brackets_emit fun _ _ => rfl))

theorem reads_mapToolInputAvailableEvent
    (h : mapToolInputAvailableEvent host event state = some (state', events)) (hs : Shows strict Any stopped state client) :
    ∃ client', events.foldlM (Client.advance strict) client = some client' ∧ Shows strict Closed stopped state' client' := by
  obtain ⟨⟨mid, completed⟩, hcomplete, hpair⟩ := Option.map_eq_some_iff.mp h
  obtain ⟨rfl, rfl⟩ := Prod.mk.inj hpair
  obtain ⟨hunseen, hignored⟩ := completeToolInput_quiet host hcomplete
  obtain ⟨client', hread, hshows⟩ := meets_sawOutput.andThen (meets_closeOpen host) state client hs
  exact ⟨client', foldlM_append_eq_some hread (reads_ignored hignored client'), hshows.unseen hunseen⟩

theorem reads_mapToolInputErrorEvent
    (h : mapToolInputErrorEvent host event state = some (state', events)) (hs : Shows strict Any stopped state client) :
    ∃ client', events.foldlM (Client.advance strict) client = some client' ∧ Shows strict Closed stopped state' client' := by
  obtain ⟨⟨mid, completed⟩, hcomplete, hpair⟩ := Option.map_eq_some_iff.mp h
  obtain ⟨rfl, rfl⟩ := Prod.mk.inj hpair
  obtain ⟨client', hread, hshows⟩ := reads_mapToolInputAvailableEvent host hcomplete hs
  exact ⟨client', foldlM_append_eq_some hread (by rfl), hshows⟩

theorem brackets_report (event : AgUiEncodedEvent M) (h : Ignored event) :
    Brackets strict stopped Any (sawOutput.andThen ((closeOpen host).andThen (emit event))) Closed :=
  meets_sawOutput.andThen ((meets_closeOpen host).andThen (brackets_emit h))

theorem brackets_mapToolOutputAvailableEvent (event : RuntimeStreamEvent) :
    Brackets strict stopped Any (mapToolOutputAvailableEvent host event) Any := by
  intro state client hs
  unfold mapToolOutputAvailableEvent
  split
  · exact ⟨client, rfl, hs⟩
  · exact brackets_any (brackets_report host _ (by intro _ _; rfl)) state client hs

theorem brackets_mapToolOutputErrorEvent (event : RuntimeStreamEvent) :
    Brackets strict stopped Any (mapToolOutputErrorEvent host event) Closed :=
  meets_sawOutput.andThen ((meets_closeOpen host).andThen ((brackets_closeOpenToolInput event).andThen
    (brackets_emit fun _ _ => rfl)))

theorem brackets_nextStep (event : RuntimeStreamEvent) : Brackets strict stopped K (nextStep host event) K := by
  refine brackets_quiet fun state => ?_
  unfold nextStep
  simp only
  split <;>
    exact ⟨⟨rfl, rfl, rfl, rfl, rfl, rfl, id, rfl, rfl⟩, fun _ he => List.mem_singleton.mp he ▸ fun _ _ => rfl⟩

theorem brackets_finishStep : Brackets (M := M) strict stopped K finishStep K :=
  brackets_quiet fun _ =>
    ⟨⟨rfl, rfl, rfl, rfl, rfl, rfl, id, rfl, rfl⟩, fun _ he => List.mem_singleton.mp he ▸ fun _ _ => rfl⟩

theorem brackets_nativeOrCustom (name : JsText) (value : JsValue) :
    Brackets strict stopped K (nativeOrCustom host name value) K := by
  refine brackets_quiet fun state => ?_
  unfold nativeOrCustom
  split <;> exact ⟨.refl state, fun _ he => List.mem_singleton.mp he ▸ fun _ _ => rfl⟩

theorem brackets_mapDataPart (name : JsText) (event : RuntimeStreamEvent) :
    Brackets strict stopped K (mapDataPart host name event) K := by
  intro state client hs
  unfold mapDataPart
  split
  · exact ⟨client, rfl, hs⟩
  · refine brackets_nativeOrCustom host name _ _ client (hs.unseen ?_)
    split
    · exact ⟨rfl, rfl, rfl, rfl, rfl, rfl, fun _ => rfl, rfl, rfl⟩
    · exact .refl state

theorem brackets_createMessageFinishMetadataEvent (event : RuntimeStreamEvent) :
    Brackets strict stopped K (createMessageFinishMetadataEvent host event) K := by
  refine brackets_quiet fun state => ⟨⟨rfl, rfl, rfl, rfl, rfl, rfl, id, rfl, rfl⟩, fun e he => ?_⟩
  obtain ⟨live, -, rfl⟩ := Option.map_eq_some_iff.mp (Option.mem_toList.mp he)
  exact fun _ _ => rfl

theorem brackets_terminal (event : AgUiEncodedEvent M) (h : ∀ client : Client, client.segment = .closed →
    client.advance strict event = some client) : Brackets strict stopped Closed (emit event) Closed :=
  meets_emit fun _ client hs => ⟨client, h client hs.kind, hs⟩

/-! ## One event, and a run -/

structure Steady (state : AgUiEncoderState M) (event : RuntimeStreamEvent) : Prop where
  names : NamesMessage event
  same : event.kind = .messageStart ∨ event.kind = .textEnd → state.textOpen = true → SameMessage state event

def Stops (event : RuntimeStreamEvent) : Prop := event.kind = .error ∨ event.kind = .manualPause

theorem Shows.weaken {stopped' : Prop} (h : Shows strict K stopped state client)
    (himp : stopped → stopped') : Shows strict K stopped' state client :=
  ⟨h.segment, h.kind, h.numbered, fun hs => himp (h.stopped hs)⟩

theorem Shows.marked (h : Shows strict K stopped state client)
    (failed paused : Bool) : Shows strict K True { state with sawTerminalError := failed, manuallyPaused := paused } client := by
  refine ⟨?_, h.kind, h.numbered, fun _ => trivial⟩
  obtain ⟨segment, ids⟩ := client
  cases segment <;> exact h.segment

theorem reads_mapErrorEvent (event : RuntimeStreamEvent)
    (hs : Shows strict Any stopped state client) :
    ∃ client', (mapErrorEvent host event state).2.foldlM (Client.advance strict) client = some client' ∧
      Shows strict Closed True (mapErrorEvent host event state).1 client' :=
  ((meets_closeOpen host).andThen (brackets_terminal _ (by intro _ h; exact if_pos h))) _ client
    (hs.marked true state.manuallyPaused)

theorem reads_step
    (hsteady : strict = true → Steady state event) (h : mapRuntimeStreamEventToAgUiEvents host state event = some (state', events))
    (hs : Shows strict Any stopped state client) :
    ∃ client', events.foldlM (Client.advance strict) client = some client' ∧
      Shows strict Any (stopped ∨ Stops event) state' client' := by
  -- An event that does not stop the run goes through an emitter that brackets.
  have hemit : ∀ {f : Emit M} {K' : OpenSegment → Prop}, Brackets strict stopped Any f K' → some (f state) = some (state', events) →
      ∃ client', events.foldlM (Client.advance strict) client = some client' ∧ Shows strict Any (stopped ∨ Stops event) state' client' := by
    intro f K' hf heq
    obtain ⟨client', hread, hshows⟩ := brackets_any hf state client hs
    rw [Option.some.inj heq] at hread hshows
    exact ⟨client', hread, hshows.weaken .inl⟩
  have hgeneral : ∀ {K' : OpenSegment → Prop} {stopped' : Prop}, (stopped' → stopped ∨ Stops event) →
      (∃ client', events.foldlM (Client.advance strict) client = some client' ∧ Shows strict K' stopped' state' client') →
      ∃ client', events.foldlM (Client.advance strict) client = some client' ∧ Shows strict Any (stopped ∨ Stops event) state' client' := by
    rintro K' stopped' himp ⟨client', hread, hshows⟩
    exact ⟨client', hread, (hshows.mono fun _ _ => trivial).weaken himp⟩
  unfold mapRuntimeStreamEventToAgUiEvents at h
  cases hkind : event.kind with
  | manualPause =>
    rw [hkind] at h
    obtain ⟨rfl, rfl⟩ := Prod.mk.inj (Option.some.inj h)
    exact ⟨client, rfl, (hs.marked state.sawTerminalError true).weaken fun _ => .inr (.inr hkind)⟩
  | messageStart =>
    rw [hkind] at h
    obtain ⟨rfl, rfl⟩ := Prod.mk.inj (Option.some.inj h)
    exact ⟨client, rfl, (shows_getMessageId host hs fun hstrict => (hsteady hstrict).same (.inl hkind)).weaken .inl⟩
  | textEnd =>
    rw [hkind] at h
    have hread := brackets_mapTextEndEvent host hs fun hstrict => (hsteady hstrict).same (.inr hkind)
    rw [Option.some.inj h] at hread
    exact hgeneral .inl hread
  | error =>
    rw [hkind] at h
    have hread := reads_mapErrorEvent host event hs
    rw [Option.some.inj h] at hread
    exact hgeneral (fun _ => .inr (.inl hkind)) hread
  | toolInputAvailable =>
    rw [hkind] at h
    exact hgeneral .inl (reads_mapToolInputAvailableEvent host h hs)
  | toolInputError =>
    rw [hkind] at h
    exact hgeneral .inl (reads_mapToolInputErrorEvent host h hs)
  | dataPart name => rw [hkind] at h; exact hemit (brackets_mapDataPart host name event) h
  | file => rw [hkind] at h; exact hemit (meets_sawOutput.andThen (brackets_nativeOrCustom host _ _)) h
  | messageFinish => rw [hkind] at h; exact hemit (brackets_createMessageFinishMetadataEvent host event) h
  | textStart => rw [hkind] at h; exact hemit (brackets_mapTextStartEvent host fun hstrict => (hsteady hstrict).names) h
  | textDelta => rw [hkind] at h; exact hemit (brackets_mapTextDeltaEvent host fun hstrict => (hsteady hstrict).names) h
  | reasoningStart => rw [hkind] at h; exact hemit (brackets_mapReasoningStartEvent host event) h
  | reasoningDelta => rw [hkind] at h; exact hemit (brackets_mapReasoningDeltaEvent host event) h
  | reasoningEnd => rw [hkind] at h; exact hemit brackets_closeReasoning h
  | toolInputStart => rw [hkind] at h; exact hemit (brackets_mapToolInputStartEvent host event) h
  | toolInputDelta => rw [hkind] at h; exact hemit (brackets_mapToolInputDeltaEvent host event) h
  | toolOutputAvailable => rw [hkind] at h; exact hemit (brackets_mapToolOutputAvailableEvent host event) h
  | toolOutputError => rw [hkind] at h; exact hemit (brackets_mapToolOutputErrorEvent host event) h
  | toolOutputDenied => rw [hkind] at h; exact hemit (brackets_report host _ (by intro _ _; rfl)) h
  | stepStart => rw [hkind] at h; exact hemit ((meets_closeOpen host).andThen (brackets_nextStep host event)) h
  | stepEnd => rw [hkind] at h; exact hemit ((meets_closeOpen host).andThen brackets_finishStep) h
  | data =>
    rw [hkind] at h
    obtain ⟨rfl, rfl⟩ := Prod.mk.inj (Option.some.inj h)
    have hunseen : Unseen state { state with metadata := host.dataMetadata state.metadata event } :=
      ⟨rfl, rfl, rfl, rfl, rfl, rfl, id, rfl, rfl⟩
    exact ⟨client, rfl, (hs.unseen hunseen).weaken .inl⟩
  | unknown =>
    rw [hkind] at h
    obtain ⟨rfl, rfl⟩ := Prod.mk.inj (Option.some.inj h)
    exact ⟨client, rfl, hs.weaken .inl⟩

def SteadyRun (start : AgUiEncoderState M) (events : List RuntimeStreamEvent) : Prop :=
  ∀ before event after, events = before ++ event :: after → ∀ state mapped,
    mapEvents host start before = some (state, mapped) → Steady state event

theorem shows_createAgUiEncoderState (metadata : M) : Shows strict Any stopped (createAgUiEncoderState metadata) Client.initial :=
  ⟨⟨rfl, rfl⟩, trivial, nofun, by rintro (h | h) <;> cases h⟩

theorem reads_mapEvents {metadata : M} {events : List RuntimeStreamEvent}
    (hsteady : strict = true → SteadyRun host (createAgUiEncoderState metadata) events)
    {mapped : List (AgUiEncodedEvent M)} (h : mapEvents host (createAgUiEncoderState metadata) events = some (state, mapped)) :
    ∃ client, Client.reads strict mapped = some client ∧ Shows strict Any (∃ event ∈ events, Stops event) state client := by
  refine emitAll_meets (fun before state client => Shows strict Any (∃ event ∈ before, Stops event) state client)
    (shows_createAgUiEncoderState metadata) ?_ h
  intro before event after hevents s emitted s' last client hbefore hstep hs
  obtain ⟨client', hread, hshows⟩ := reads_step host
    (fun hstrict => hsteady hstrict before event after hevents s emitted hbefore) hstep hs
  refine ⟨client', hread, hshows.weaken ?_⟩
  rintro (⟨e, he, hstop⟩ | hstop)
  · exact ⟨e, List.mem_append_left _ he, hstop⟩
  · exact ⟨event, by simp, hstop⟩

theorem reads_finalizeAgUiEvents (response : Option R)
    (hs : Shows strict Any stopped state client) :
    ∃ client', (finalizeAgUiEvents host state response).2.foldlM (Client.advance strict) client = some client' ∧
      (client'.segment = .closed ∨ stopped) := by
  have hs' : Shows strict Any stopped { state with metadata := host.responseMetadata state.metadata response } client :=
    hs.unseen ⟨rfl, rfl, rfl, rfl, rfl, rfl, id, rfl, rfl⟩
  unfold finalizeAgUiEvents
  dsimp only
  split
  · rename_i hstop
    exact ⟨client, rfl, .inr (hs.stopped (by simpa using hstop))⟩
  · split
    · rename_i hsilent
      have hclosed : client.segment = .closed := by
        obtain ⟨segment, ids⟩ := client
        have hsegment := hs.segment
        cases segment with
        | closed => rfl
        | text messageId contentId => simp [hsegment.2.2.2.2] at hsilent
        | reasoning messageId contentId => simp [hsegment.2.2.2] at hsilent
      exact ⟨client, by simp [Client.advance, hclosed], .inl hclosed⟩
    · obtain ⟨client', hread, hshows⟩ :=
        ((meets_closeOpen host).andThen (brackets_terminal (.runFinished (host.responseMetadata state.metadata response)
          (state.finishObject.or (response.bind host.structuredOutput))) fun _ h => if_pos h)) _ client hs'
      exact ⟨client', hread, .inl hshows.kind⟩

theorem reads_run_of {metadata : M} {events : List RuntimeStreamEvent}
    (hsteady : strict = true → SteadyRun host (createAgUiEncoderState metadata) events)
    {mapped : List (AgUiEncodedEvent M)} (h : mapEvents host (createAgUiEncoderState metadata) events = some (state, mapped))
    (response : Option R) :
    ∃ client, Client.reads strict (mapped ++ (finalizeAgUiEvents host state response).2) = some client ∧
      (client.segment = .closed ∨ ∃ event ∈ events, Stops event) := by
  obtain ⟨client, hread, hshows⟩ := reads_mapEvents host hsteady h
  obtain ⟨client', hfinal, hclosed⟩ := reads_finalizeAgUiEvents host response hshows
  exact ⟨client', foldlM_append_eq_some hread hfinal, hclosed⟩

/-- What a client reads of a run and its end: every content and end is that of the open segment, each segment
is closed before the next one starts and before the run ends, and no reasoning id comes twice. A segment can stay open
only in a run that failed or was paused. The message ids of text agree as well where the run is steady. -/
theorem reads_run {metadata : M} {events : List RuntimeStreamEvent} {state : AgUiEncoderState M}
    {mapped : List (AgUiEncodedEvent M)} (h : mapEvents host (createAgUiEncoderState metadata) events = some (state, mapped))
    (response : Option R) :
    (∃ client, Client.reads false (mapped ++ (finalizeAgUiEvents host state response).2) = some client ∧
      (client.segment = .closed ∨ ∃ event ∈ events, Stops event)) ∧
    (SteadyRun host (createAgUiEncoderState metadata) events →
      ∃ client, Client.reads true (mapped ++ (finalizeAgUiEvents host state response).2) = some client ∧
        (client.segment = .closed ∨ ∃ event ∈ events, Stops event)) :=
  ⟨reads_run_of host (fun hfalse : false = true => absurd hfalse Bool.false_ne_true) h response,
    fun hsteady => reads_run_of host (fun _ => hsteady) h response⟩

theorem steady_of_unnamed
    (h : asString (event.field "messageId") = none) : Steady state event :=
  ⟨fun _ hid => by simp [h] at hid, fun _ _ _ hid => by simp [h] at hid⟩

end Encoder

/-! ## Two runs that break -/

def plainHost : AgUiHost Unit Unit where
  randomUUID n := js "uuid-" ++ js (toString n)
  randomUUID_ne_nil n := List.append_ne_nil_of_left_ne_nil (by decide) _
  stepIdentity _ := none
  serializeToolInput _ := some (js "{}")
  isToolResultErrorOutput _ := false
  nativeFrame _ _ _ := none
  messageFinish _ _ := ((), none, none)
  dataMetadata _ _ := ()
  responseMetadata _ _ := ()
  structuredOutput _ := none

def runtimeEvent (type : String) (fields : List (String × String)) : RuntimeStreamEvent :=
  ⟨js type, fields.map fun f => (js f.1, .string (js f.2))⟩

def Bracketed (events : List RuntimeStreamEvent) : Prop :=
  ∀ state mapped, mapEvents plainHost (createAgUiEncoderState ()) events = some (state, mapped) →
    ∃ client, Client.reads true (mapped ++ (finalizeAgUiEvents plainHost state none).2) = some client ∧
      client.segment = .closed

def lastSegment (events : List RuntimeStreamEvent) : Option OpenSegment := do
  let (state, mapped) ← mapEvents plainHost (createAgUiEncoderState ()) events
  let client ← Client.reads true (mapped ++ (finalizeAgUiEvents plainHost state none).2)
  return client.segment

theorem not_bracketed {events : List RuntimeStreamEvent}
    (hrun : (mapEvents plainHost (createAgUiEncoderState ()) events).isSome = true)
    (h : lastSegment events ≠ some .closed) : ¬ Bracketed events := by
  intro hall
  obtain ⟨⟨state, mapped⟩, hmap⟩ := Option.isSome_iff_exists.mp hrun
  obtain ⟨client, hread, hclosed⟩ := hall state mapped hmap
  refine h ?_
  simp [lastSegment, hmap, hread, hclosed]

/-- A pause leaves the text open that it finds, and a message start in the middle of a text changes the message id
of what follows. -/
theorem paused_and_renamed_not_bracketed :
    ¬ Bracketed [runtimeEvent "text-delta" [("delta", "Working")], runtimeEvent "data-veryfront.manual_pause" []] ∧
      ¬ Bracketed [runtimeEvent "message-start" [("messageId", "m1")], runtimeEvent "text-delta" [("delta", "a")],
        runtimeEvent "message-start" [("messageId", "m2")], runtimeEvent "text-delta" [("delta", "b")]] :=
  ⟨not_bracketed (by decide) (by decide), not_bracketed (by decide) (by decide)⟩

def interleaved : List RuntimeStreamEvent :=
  [runtimeEvent "text-delta" [("delta", "a")], runtimeEvent "reasoning-delta" [("delta", "b")],
    runtimeEvent "text-start" [("id", "t")], runtimeEvent "tool-input-start" [("toolCallId", "c")]]

theorem steadyRun_interleaved : SteadyRun plainHost (createAgUiEncoderState ()) interleaved := by
  intro before event after hevents _ _ _
  have hmem : event ∈ interleaved := hevents ▸ List.mem_append_right before List.mem_cons_self
  simp only [interleaved, List.mem_cons, List.not_mem_nil, or_false] at hmem
  rcases hmem with rfl | rfl | rfl | rfl <;> exact steady_of_unnamed rfl

theorem reads_run_interleaved :
    ∃ state mapped client, mapEvents plainHost (createAgUiEncoderState ()) interleaved = some (state, mapped) ∧
      Client.reads true (mapped ++ (finalizeAgUiEvents plainHost state none).2) = some client ∧
      (client.segment = .closed ∨ ∃ event ∈ interleaved, Stops event) := by
  obtain ⟨⟨state, mapped⟩, hmap⟩ := Option.isSome_iff_exists.mp
    (by decide : (mapEvents plainHost (createAgUiEncoderState ()) interleaved).isSome = true)
  obtain ⟨client, hread, hclosed⟩ := (reads_run plainHost hmap none).2 steadyRun_interleaved
  exact ⟨state, mapped, client, hmap, hread, hclosed⟩

end Veryfront.Agent.AgUi
