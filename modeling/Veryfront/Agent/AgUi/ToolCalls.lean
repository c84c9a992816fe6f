import Veryfront.Agent.AgUi.Bracketing

/-!
# Each tool call comes in one bracket

What a client sees of one call depends on the events of that call only. They drive a machine with two flags, whether
the call is open and whether its input has been streamed.
-/

namespace Veryfront.Agent.AgUi

open Lib Lib.Emitter

/-! ## One call -/

inductive CallFrame
  | start (name : JsValue)
  | args (delta : JsText)
  | ended
  | result (content : ToolResultContent) (isError : Bool)

@[simp] theorem asString_string (text : JsText) : asString (.string text) = some text := rfl

def callFrame {M : Type} (id : JsText) : AgUiEncodedEvent M → Option CallFrame
  | .toolCallStart toolCallId name _ => if asString toolCallId = some id then some (.start name) else none
  | .toolCallArgs toolCallId delta => if asString toolCallId = some id then some (.args delta) else none
  | .toolCallEnd toolCallId => if asString toolCallId = some id then some .ended else none
  | .toolCallResult toolCallId content isError =>
    if asString toolCallId = some id then some (.result content isError) else none
  | _ => none

def framesOf {M : Type} (id : JsText) (events : List (AgUiEncodedEvent M)) : List CallFrame :=
  events.filterMap (callFrame id)

@[simp] theorem framesOf_nil {M : Type} (id : JsText) : framesOf id ([] : List (AgUiEncodedEvent M)) = [] := rfl

@[simp] theorem framesOf_cons {M : Type} (id : JsText) (event : AgUiEncodedEvent M) (events : List (AgUiEncodedEvent M)) :
    framesOf id (event :: events) = (callFrame id event).toList ++ framesOf id events := by
  cases h : callFrame id event <;> simp [framesOf, h]

@[simp] theorem framesOf_append {M : Type} (id : JsText) (events events' : List (AgUiEncodedEvent M)) :
    framesOf id (events ++ events') = framesOf id events ++ framesOf id events' :=
  List.filterMap_append

structure CallState where
  opened : Bool
  streamed : Bool
deriving DecidableEq

def callState {M : Type} (id : JsText) (state : AgUiEncoderState M) : CallState where
  opened := id ∈ state.openToolCallIds
  streamed := id ∈ state.streamedToolInputIds

def EventKind.isTool : EventKind → Bool
  | .toolInputStart | .toolInputDelta | .toolInputAvailable | .toolInputError | .toolOutputAvailable
  | .toolOutputError | .toolOutputDenied => true
  | _ => false

def ofCall (id : JsText) (event : RuntimeStreamEvent) : Bool :=
  event.kind.isTool && asString (toolCallIdOf event) = some id

def inputDelta (event : RuntimeStreamEvent) : JsText := (asString (event.field "inputTextDelta")).getD []

def isPreliminary (event : RuntimeStreamEvent) : Bool :=
  match event.field "preliminary" with
  | .bool true => true
  | _ => false

section Encoder

variable {M R : Type} (host : AgUiHost M R)

/-! ## The machine of one call -/

def outputFrame (event : RuntimeStreamEvent) : CallFrame :=
  let providerExecuted := match event.field "providerExecuted" with | .bool true => true | _ => false
  .result (.output (event.field "output")) (!providerExecuted && host.isToolResultErrorOutput (event.field "output"))

def outputErrorFrame (event : RuntimeStreamEvent) : CallFrame := .result (.error (event.field "errorText")) true

def inputErrorFrame (event : RuntimeStreamEvent) : CallFrame :=
  .result (.error (.string ((asString (event.field "errorText")).getD (js "Tool input failed")))) true

def deniedFrame : CallFrame := .result (.error (.string (js "Tool output denied"))) true

def closeCall : Emitter CallState CallFrame := fun call =>
  if call.opened then (⟨false, false⟩, [.ended]) else (call, [])

def reportInput (event : RuntimeStreamEvent) (call : CallState) : Option (CallState × List CallFrame) :=
  if call.streamed then some (⟨false, false⟩, [.ended])
  else (serializedInput host event).map fun delta => (⟨false, false⟩, [.args delta, .ended])

def callStep (call : CallState) (event : RuntimeStreamEvent) : Option (CallState × List CallFrame) :=
  match event.kind with
  | .toolInputStart => some (⟨true, call.streamed⟩, [.start (event.field "toolName")])
  | .toolInputDelta => some (⟨call.opened, true⟩, [.args (inputDelta event)])
  | .toolInputAvailable => reportInput host event call
  | .toolInputError => (reportInput host event call).map fun after => (after.1, after.2 ++ [inputErrorFrame event])
  | .toolOutputAvailable => if isPreliminary event then some (call, []) else some (call, [outputFrame host event])
  | .toolOutputError => some ((closeCall.andThen (emit (outputErrorFrame event))) call)
  | .toolOutputDenied => some (call, [deniedFrame])
  | _ => some (call, [])

/-! ## What is no call's -/

/-- No call sees anything of it. -/
def Aside (f : Emit M) : Prop := ∀ id, Projects (callState id) (callFrame id) f idle

variable {f : Emit M}

theorem Aside.andThen {g : Emit M} (hf : Aside f) (hg : Aside g) : Aside (f.andThen g) :=
  fun id => (hf id).after (hg id)

/-- The two sets of calls are kept. -/
structure KeepsCalls (state state' : AgUiEncoderState M) : Prop where
  openToolCallIds : state'.openToolCallIds = state.openToolCallIds
  streamedToolInputIds : state'.streamedToolInputIds = state.streamedToolInputIds

variable {state state' : AgUiEncoderState M}

theorem KeepsCalls.trans {state'' : AgUiEncoderState M} (h : KeepsCalls state state')
    (h' : KeepsCalls state' state'') : KeepsCalls state state'' :=
  ⟨h'.openToolCallIds.trans h.openToolCallIds, h'.streamedToolInputIds.trans h.streamedToolInputIds⟩

variable {id : JsText}

theorem callState_eq
    (hopen : id ∈ state'.openToolCallIds ↔ id ∈ state.openToolCallIds)
    (hstreamed : id ∈ state'.streamedToolInputIds ↔ id ∈ state.streamedToolInputIds) :
    callState id state' = callState id state := by
  simp only [callState, hopen, hstreamed]

theorem KeepsCalls.callState_eq (h : KeepsCalls state state') (id : JsText) :
    callState id state' = callState id state :=
  AgUi.callState_eq (by rw [h.openToolCallIds]) (by rw [h.streamedToolInputIds])

theorem keepsCalls_getMessageId (state : AgUiEncoderState M) (event : RuntimeStreamEvent) :
    KeepsCalls state (getMessageId host state event).1 := by
  unfold getMessageId
  split
  · exact ⟨rfl, rfl⟩
  · dsimp only
    split <;> exact ⟨rfl, rfl⟩

theorem keepsCalls_textContentIndexed (state : AgUiEncoderState M) (contentId : Option JsText) :
    KeepsCalls state (textContentIndexed state contentId).1 := by
  cases contentId <;> exact ⟨rfl, rfl⟩

theorem keepsCalls_getTextMessageIdentity (state : AgUiEncoderState M) (event : RuntimeStreamEvent) :
    KeepsCalls state (getTextMessageIdentity host state event).1 :=
  (keepsCalls_getMessageId host state event).trans (keepsCalls_textContentIndexed _ _)

def NoCall (event : AgUiEncodedEvent M) : Prop := ∀ id, callFrame id event = none

theorem aside_of (h : ∀ state, KeepsCalls state (f state).1 ∧ ∀ event ∈ (f state).2, NoCall event) :
    Aside f := by
  intro id state
  obtain ⟨hkeeps, hevents⟩ := h state
  exact ⟨hkeeps.callState_eq id, List.filterMap_eq_nil_iff.mpr fun event he => hevents event he id⟩

theorem aside_emit {event : AgUiEncodedEvent M} (h : NoCall event) : Aside (emit event) :=
  fun id => projects_ignored (h id)

theorem aside_sawOutput : Aside (M := M) sawOutput := aside_of fun _ => ⟨⟨rfl, rfl⟩, nofun⟩

theorem aside_nothing : Aside (M := M) fun state => (state, []) := aside_of fun _ => ⟨⟨rfl, rfl⟩, nofun⟩

theorem aside_closeOpenTextEvent : Aside (closeOpenTextEvent host) := by
  refine aside_of fun state => ?_
  unfold closeOpenTextEvent
  split
  · have hkeeps := (keepsCalls_getMessageId host { state with textOpen := false } bareTextEnd).trans
      (keepsCalls_textContentIndexed _ state.activeTextContentId)
    exact ⟨⟨hkeeps.openToolCallIds, hkeeps.streamedToolInputIds⟩, by simp [NoCall, callFrame]⟩
  · exact ⟨⟨rfl, rfl⟩, nofun⟩

theorem aside_closeOpenReasoningEvent : Aside (M := M) closeOpenReasoningEvent := by
  refine aside_of fun state => ?_
  unfold closeOpenReasoningEvent
  split
  · exact ⟨⟨rfl, rfl⟩, nofun⟩
  · exact ⟨⟨rfl, rfl⟩, by simp [NoCall, callFrame]⟩

theorem aside_closeOpen : Aside (closeOpen host) := (aside_closeOpenTextEvent host).andThen aside_closeOpenReasoningEvent

theorem aside_openText (event : RuntimeStreamEvent) : Aside (openText host event) := by
  refine aside_of fun state => ?_
  have hkeeps := keepsCalls_getTextMessageIdentity host state event
  exact ⟨⟨hkeeps.openToolCallIds, hkeeps.streamedToolInputIds⟩, by simp [openText, NoCall, callFrame]⟩

theorem aside_choose (h : ∀ state, ∃ g : Emit M, Aside g ∧ f state = g state) : Aside f := by
  intro id state
  obtain ⟨g, hg, heq⟩ := h state
  rw [heq]
  exact hg id state

theorem aside_mapTextStartEvent (event : RuntimeStreamEvent) : Aside (mapTextStartEvent host event) := by
  refine aside_closeOpenReasoningEvent.andThen (aside_choose fun state => ?_)
  split
  · split
    · exact ⟨_, aside_nothing, rfl⟩
    · exact ⟨_, (aside_closeOpenTextEvent host).andThen (aside_openText host event), rfl⟩
  · exact ⟨_, aside_openText host event, rfl⟩

theorem aside_appendText (event : RuntimeStreamEvent) : Aside (appendText host event) := by
  refine aside_of fun state => ?_
  have hkeeps := keepsCalls_getTextMessageIdentity host state event
  unfold appendText
  dsimp only
  split <;> exact ⟨⟨hkeeps.openToolCallIds, hkeeps.streamedToolInputIds⟩, by simp [NoCall, callFrame]⟩

theorem aside_mapTextDeltaEvent (event : RuntimeStreamEvent) : Aside (mapTextDeltaEvent host event) := by
  refine aside_closeOpenReasoningEvent.andThen (aside_choose fun state => ?_)
  split
  · exact ⟨_, (aside_closeOpenTextEvent host).andThen (aside_appendText host event), rfl⟩
  · exact ⟨_, aside_appendText host event, rfl⟩

theorem aside_mapTextEndEvent (event : RuntimeStreamEvent) : Aside (mapTextEndEvent host event) := by
  refine aside_of fun state => ?_
  have hkeeps := keepsCalls_getTextMessageIdentity host state event
  unfold mapTextEndEvent
  split
  · exact ⟨⟨hkeeps.openToolCallIds, hkeeps.streamedToolInputIds⟩, by simp [NoCall, callFrame]⟩
  · exact ⟨⟨rfl, rfl⟩, nofun⟩

theorem aside_startReasoning (event : RuntimeStreamEvent) : Aside (M := M) (startReasoning event) :=
  aside_of fun _ => ⟨⟨rfl, rfl⟩, by simp [startReasoning, NoCall, callFrame]⟩

theorem aside_mapReasoningStartEvent (event : RuntimeStreamEvent) : Aside (mapReasoningStartEvent host event) :=
  (aside_closeOpen host).andThen (aside_sawOutput.andThen (aside_startReasoning event))

theorem aside_ensureReasoning (event : RuntimeStreamEvent) : Aside (M := M) (ensureReasoning event) := by
  refine aside_choose fun state => ?_
  unfold ensureReasoning
  split
  · exact ⟨_, aside_startReasoning event, rfl⟩
  · exact ⟨_, aside_nothing, rfl⟩

theorem aside_appendReasoning (event : RuntimeStreamEvent) : Aside (M := M) (appendReasoning event) := by
  refine aside_of fun state => ?_
  unfold appendReasoning
  cases state.reasoningMessageId <;> exact ⟨⟨rfl, rfl⟩, by simp [NoCall, callFrame]⟩

theorem aside_mapReasoningDeltaEvent (event : RuntimeStreamEvent) : Aside (mapReasoningDeltaEvent host event) :=
  (aside_closeOpenTextEvent host).andThen <| aside_sawOutput.andThen <|
    (aside_ensureReasoning event).andThen (aside_appendReasoning event)

theorem aside_nativeOrCustom (name : JsText) (value : JsValue) : Aside (nativeOrCustom host name value) := by
  refine aside_of fun state => ?_
  unfold nativeOrCustom
  split <;> exact ⟨⟨rfl, rfl⟩, by simp [NoCall, callFrame]⟩

theorem aside_mapDataPart (name : JsText) (event : RuntimeStreamEvent) : Aside (mapDataPart host name event) := by
  refine aside_choose fun state => ?_
  unfold mapDataPart
  split
  · exact ⟨_, aside_nothing, rfl⟩
  · split
    · exact ⟨_, aside_sawOutput.andThen (aside_nativeOrCustom host name _), rfl⟩
    · exact ⟨_, aside_nativeOrCustom host name _, rfl⟩

theorem aside_createMessageFinishMetadataEvent (event : RuntimeStreamEvent) :
    Aside (createMessageFinishMetadataEvent host event) := by
  refine aside_of fun state => ⟨⟨rfl, rfl⟩, fun e he => ?_⟩
  obtain ⟨live, -, rfl⟩ := Option.map_eq_some_iff.mp (Option.mem_toList.mp he)
  exact fun _ => rfl

theorem aside_nextStep (event : RuntimeStreamEvent) : Aside (nextStep host event) := by
  refine aside_of fun state => ?_
  unfold nextStep
  dsimp only
  split <;> exact ⟨⟨rfl, rfl⟩, by simp [NoCall, callFrame]⟩

theorem aside_finishStep : Aside (M := M) finishStep :=
  aside_of fun _ => ⟨⟨rfl, rfl⟩, by simp [finishStep, NoCall, callFrame]⟩

theorem aside_mapErrorEvent (event : RuntimeStreamEvent) : Aside (mapErrorEvent host event) := by
  have hmark : Aside (M := M) (update fun state => { state with sawTerminalError := true }) :=
    aside_of fun _ => ⟨⟨rfl, rfl⟩, nofun⟩
  exact hmark.andThen ((aside_closeOpen host).andThen (aside_emit fun _ => rfl))

theorem aside_finalizeAgUiEvents (response : Option R) :
    Aside fun state => finalizeAgUiEvents host state response := by
  refine aside_choose fun state => ?_
  have hdata : Aside (M := M) (update fun state => { state with metadata := host.responseMetadata state.metadata response }) :=
    aside_of fun _ => ⟨⟨rfl, rfl⟩, nofun⟩
  unfold finalizeAgUiEvents
  dsimp only
  split
  · exact ⟨_, hdata, rfl⟩
  · split
    · exact ⟨_, hdata.andThen (aside_of (f := fun state => ({ state with sawTerminalError := true },
        [.runError (some (js "EMPTY_ASSISTANT_OUTPUT")) (js "Agent run produced no assistant-visible output")]))
          fun _ => ⟨⟨rfl, rfl⟩, by simp [NoCall, callFrame]⟩), rfl⟩
    · exact ⟨_, hdata.andThen ((aside_closeOpen host).andThen (aside_emit fun _ => rfl)), rfl⟩

/-! ## The encoder is the machine -/

theorem nonemptyString_of_ne_nil {value : JsValue} (hid : id ≠ []) (h : asString value = some id) :
    nonemptyString value = some id := by
  simp [nonemptyString, truthy, h, hid]

theorem asString_eq_of_nonemptyString {value : JsValue} (h : nonemptyString value = some id) :
    asString value = some id := by
  simp only [nonemptyString, truthy, Option.filter_eq_some_iff] at h
  exact h.1

variable {event : RuntimeStreamEvent}

theorem projects_closeOpenToolInput (hid : id ≠ [])
    (h : asString (toolCallIdOf event) = some id) :
    Projects (callState (M := M) id) (callFrame id) (closeOpenToolInput event) closeCall := by
  intro state
  unfold closeOpenToolInput closeCall
  rw [nonemptyString_of_ne_nil hid h]
  by_cases hopen : id ∈ state.openToolCallIds
  · simp [callState, callFrame, hopen]
  · simp [callState, hopen]

theorem projects_closeOpenToolInput_other
    (h : asString (toolCallIdOf event) ≠ some id) :
    Projects (callState (M := M) id) (callFrame id) (closeOpenToolInput event) idle := by
  intro state
  unfold closeOpenToolInput
  split
  · exact ⟨rfl, rfl⟩
  · rename_i toolCallId hcall
    have hne : id ≠ toolCallId := by
      rintro rfl
      exact h (asString_eq_of_nonemptyString hcall)
    split
    · simp [callState, callFrame, idle, hne, Ne.symm hne]
    · exact ⟨rfl, rfl⟩

variable {emitted : List (AgUiEncodedEvent M)}

theorem reportInput_of_completeToolInput (hid : id ≠ [])
    (h : asString (toolCallIdOf event) = some id) (hrun : completeToolInput host event state = some (state', emitted)) :
    reportInput host event (callState id state) = some (callState id state', framesOf id emitted) := by
  unfold completeToolInput at hrun
  simp only [nonemptyString_of_ne_nil hid h] at hrun
  unfold reportInput
  split at hrun
  · rename_i hstreamed
    obtain ⟨rfl, rfl⟩ := Prod.mk.inj (Option.some.inj hrun)
    simp [callState, callFrame, hstreamed, h]
  · rename_i hstreamed
    obtain ⟨delta, hdelta, heq⟩ := Option.map_eq_some_iff.mp hrun
    obtain ⟨rfl, rfl⟩ := Prod.mk.inj heq
    simp [callState, callFrame, hstreamed, h, hdelta]

theorem completeToolInput_other
    (h : asString (toolCallIdOf event) ≠ some id) (hrun : completeToolInput host event state = some (state', emitted)) :
    callState id state' = callState id state ∧ framesOf id emitted = [] := by
  unfold completeToolInput at hrun
  split at hrun
  · obtain ⟨rfl, rfl⟩ := Prod.mk.inj (Option.some.inj hrun)
    simp [callFrame, h]
  · rename_i toolCallId hcall
    have hne : id ≠ toolCallId := by
      rintro rfl
      exact h (asString_eq_of_nonemptyString hcall)
    dsimp only at hrun
    split at hrun
    · obtain ⟨rfl, rfl⟩ := Prod.mk.inj (Option.some.inj hrun)
      simp [callState, callFrame, h, hne]
    · obtain ⟨delta, -, heq⟩ := Option.map_eq_some_iff.mp hrun
      obtain ⟨rfl, rfl⟩ := Prod.mk.inj heq
      simp [callState, callFrame, h, hne, Ne.symm hne]

theorem mapToolInputAvailableEvent_eq (hrun : mapToolInputAvailableEvent host event state = some (state', emitted)) :
    ∃ mid completed, (∀ id, callState id mid = callState id state) ∧
      completeToolInput host event mid = some (state', completed) ∧ ∀ id, framesOf id emitted = framesOf id completed := by
  have haside : ∀ id, callState id ((sawOutput.andThen (closeOpen host)) state).1 = callState id state ∧
      framesOf id ((sawOutput.andThen (closeOpen host)) state).2 = [] :=
    fun id => aside_sawOutput.andThen (aside_closeOpen host) id state
  unfold mapToolInputAvailableEvent at hrun
  generalize (sawOutput.andThen (closeOpen host)) state = closed at haside hrun
  obtain ⟨⟨after, completed⟩, hcomplete, heq⟩ := Option.map_eq_some_iff.mp hrun
  obtain ⟨rfl, rfl⟩ := Prod.mk.inj heq
  exact ⟨closed.1, completed, fun id => (haside id).1, hcomplete, fun id => by simp [(haside id).2]⟩

/-- The encoder's step is the machine's, and on what belongs to others it is nothing. -/
structure StepsAs (id : JsText) (event : RuntimeStreamEvent) (state state' : AgUiEncoderState M)
    (emitted : List (AgUiEncodedEvent M)) : Prop where
  own : asString (toolCallIdOf event) = some id → callStep host (callState id state) event =
    some (callState id state', framesOf id emitted)
  other : asString (toolCallIdOf event) ≠ some id → callState id state' = callState id state ∧ framesOf id emitted = []

theorem stepsAs_of_projects
    {g : Emitter CallState CallFrame}
    (hown : asString (toolCallIdOf event) = some id → Projects (callState id) (callFrame id) f g)
    (hother : asString (toolCallIdOf event) ≠ some id → Projects (callState id) (callFrame id) f idle)
    (hmachine : ∀ call, callStep host call event = some (g call)) (h : some (f state) = some (state', emitted)) :
    StepsAs host id event state state' emitted := by
  have hrun : f state = (state', emitted) := Option.some.inj h
  constructor
  · intro hid
    obtain ⟨hstate, hframes⟩ := hown hid state
    rw [hrun] at hstate hframes
    rw [hmachine, framesOf, hstate, hframes]
  · intro hid
    have hidle := hother hid state
    rwa [hrun] at hidle

theorem stepsAs_report {content : ToolResultContent} {isError : Bool}
    (hmachine : ∀ call, callStep host call event = some (call, [.result content isError]))
    (h : some ((sawOutput.andThen ((closeOpen host).andThen
      (emit (.toolCallResult (toolCallIdOf event) content isError)))) state) = some (state', emitted)) :
    StepsAs host id event state state' emitted := by
  refine stepsAs_of_projects host (fun hid => ?_) (fun hid => ?_) hmachine h
  · exact (aside_sawOutput id).after ((aside_closeOpen host id).after (projects_emit (if_pos hid)))
  · exact (aside_sawOutput id).after ((aside_closeOpen host id).after (projects_ignored (if_neg hid)))

theorem stepsAs_start (hid : id ≠ []) (hkind : event.kind = .toolInputStart)
    (h : some (mapToolInputStartEvent host event state) = some (state', emitted)) :
    StepsAs host id event state state' emitted := by
  refine stepsAs_of_projects host (fun hown => ?_) (fun hother => ?_) (fun call => by rw [callStep, hkind]) h
  · refine (aside_closeOpen host id).after ((aside_sawOutput id).after fun state => ?_)
    simp [nonemptyString_of_ne_nil hid hown, callState, callFrame, hown]
  · refine (aside_closeOpen host id).after ((aside_sawOutput id).after fun state => ?_)
    cases hname : nonemptyString (toolCallIdOf event) with
    | none => simp [callState, callFrame, hother, idle]
    | some toolCallId =>
      have hne : id ≠ toolCallId := by
        rintro rfl
        exact hother (asString_eq_of_nonemptyString hname)
      simp [callState, callFrame, hother, idle, hne]

theorem stepsAs_delta (hkind : event.kind = .toolInputDelta)
    (h : some (mapToolInputDeltaEvent host event state) = some (state', emitted)) :
    StepsAs host id event state state' emitted := by
  refine stepsAs_of_projects host (g := (update fun call => ⟨call.opened, true⟩).andThen (emit (.args (inputDelta event))))
    (fun hown => ?_) (fun hother => ?_) (fun call => by rw [callStep, hkind]; rfl) h
  · refine Projects.andThen (projects_update fun state => ?_)
      ((aside_closeOpen host id).after (projects_emit (if_pos hown)))
    simp [callState, hown]
  · refine Projects.after (fun state => ⟨callState_eq Iff.rfl ?_, rfl⟩)
      ((aside_closeOpen host id).after (projects_ignored (if_neg hother)))
    cases hname : asString (toolCallIdOf event) with
    | none => simp [update]
    | some toolCallId =>
      have hne : id ≠ toolCallId := by
        rintro rfl
        exact hother hname
      simp [update, hne]

theorem stepsAs_outputAvailable (hkind : event.kind = .toolOutputAvailable)
    (h : some (mapToolOutputAvailableEvent host event state) = some (state', emitted)) :
    StepsAs host id event state state' emitted := by
  unfold mapToolOutputAvailableEvent at h
  split at h
  · rename_i hpreliminary
    have hmachine : ∀ call, callStep host call event = some (call, []) := fun call => by
      simp [callStep, hkind, isPreliminary, hpreliminary]
    exact stepsAs_of_projects host (fun _ => aside_nothing id) (fun _ => aside_nothing id) hmachine h
  · rename_i hfinal
    have hreported : isPreliminary event = false := by
      unfold isPreliminary
      split
      · exact absurd ‹_› hfinal
      · rfl
    refine stepsAs_report host (fun call => ?_) h
    rw [callStep, hkind, if_neg (Bool.not_eq_true _ ▸ hreported)]
    rfl

theorem stepsAs_outputError (hid : id ≠ [])
    (hkind : event.kind = .toolOutputError)
    (h : some (mapToolOutputErrorEvent host event state) = some (state', emitted)) :
    StepsAs host id event state state' emitted := by
  refine stepsAs_of_projects host (fun hown => ?_) (fun hother => ?_) (fun call => by rw [callStep, hkind]) h
  · exact (aside_sawOutput id).after ((aside_closeOpen host id).after
      ((projects_closeOpenToolInput hid hown).andThen (projects_emit (if_pos hown))))
  · exact (aside_sawOutput id).after ((aside_closeOpen host id).after
      ((projects_closeOpenToolInput_other hother).after (projects_ignored (if_neg hother))))

theorem stepsAs_available (hid : id ≠ [])
    (hkind : event.kind = .toolInputAvailable)
    (hrun : mapToolInputAvailableEvent host event state = some (state', emitted)) :
    StepsAs host id event state state' emitted := by
  obtain ⟨mid, completed, hmid, hcomplete, hframes⟩ := mapToolInputAvailableEvent_eq host hrun
  constructor
  · intro h
    rw [callStep, hkind, ← hmid, hframes]
    exact reportInput_of_completeToolInput host hid h hcomplete
  · intro h
    rw [← hmid, hframes]
    exact completeToolInput_other host h hcomplete

theorem stepsAs_inputError (hid : id ≠ [])
    (hkind : event.kind = .toolInputError)
    (hrun : mapToolInputErrorEvent host event state = some (state', emitted)) :
    StepsAs host id event state state' emitted := by
  obtain ⟨⟨after, reported⟩, hreport, heq⟩ := Option.map_eq_some_iff.mp hrun
  obtain ⟨rfl, rfl⟩ := Prod.mk.inj heq
  obtain ⟨mid, completed, hmid, hcomplete, hframes⟩ := mapToolInputAvailableEvent_eq host hreport
  constructor
  · intro h
    have hinput := reportInput_of_completeToolInput host hid h hcomplete
    rw [hmid] at hinput
    simp [callStep, hkind, hinput, hframes, callFrame, h, inputErrorFrame]
  · intro h
    obtain ⟨hstate, hnone⟩ := completeToolInput_other host h hcomplete
    exact ⟨hstate.trans (hmid id), by simp [hframes, hnone, callFrame, h]⟩

theorem Aside.stepsAs (hf : Aside f)
    (hmachine : ∀ call, callStep host call event = some (call, [])) (h : some (f state) = some (state', emitted)) :
    StepsAs host id event state state' emitted :=
  stepsAs_of_projects host (fun _ => hf id) (fun _ => hf id) hmachine h

theorem callStep_of_not_tool (h : event.kind.isTool = false) (call : CallState) :
    callStep host call event = some (call, []) := by
  unfold callStep
  cases hkind : event.kind <;> simp_all [EventKind.isTool]

theorem stepsAs (hid : id ≠ [])
    (h : mapRuntimeStreamEventToAgUiEvents host state event = some (state', emitted)) :
    StepsAs host id event state state' emitted := by
  unfold mapRuntimeStreamEventToAgUiEvents at h
  -- The kinds that are no tool's.
  have haside : event.kind.isTool = false → ∀ {f : Emit M}, Aside f → some (f state) = some (state', emitted) →
      StepsAs host id event state state' emitted :=
    fun hkind _ hf heq => hf.stepsAs host (callStep_of_not_tool host hkind) heq
  cases hkind : event.kind with
  | toolInputStart => rw [hkind] at h; exact stepsAs_start host hid hkind h
  | toolInputDelta => rw [hkind] at h; exact stepsAs_delta host hkind h
  | toolInputAvailable => rw [hkind] at h; exact stepsAs_available host hid hkind h
  | toolInputError => rw [hkind] at h; exact stepsAs_inputError host hid hkind h
  | toolOutputAvailable => rw [hkind] at h; exact stepsAs_outputAvailable host hkind h
  | toolOutputError => rw [hkind] at h; exact stepsAs_outputError host hid hkind h
  | toolOutputDenied =>
    rw [hkind] at h
    exact stepsAs_report host (fun call => by rw [callStep, hkind]; rfl) h
  | manualPause =>
    rw [hkind] at h haside
    exact haside rfl (f := update fun state => { state with manuallyPaused := true })
      (aside_of fun _ => ⟨⟨rfl, rfl⟩, nofun⟩) h
  | messageStart =>
    rw [hkind] at h haside
    exact haside rfl (f := update fun state => (getMessageId host state event).1)
      (aside_of fun state => ⟨keepsCalls_getMessageId host state event, nofun⟩) h
  | data =>
    rw [hkind] at h haside
    exact haside rfl (f := update fun state => { state with metadata := host.dataMetadata state.metadata event })
      (aside_of fun _ => ⟨⟨rfl, rfl⟩, nofun⟩) h
  | unknown => rw [hkind] at h haside; exact haside rfl aside_nothing h
  | dataPart name => rw [hkind] at h haside; exact haside rfl (aside_mapDataPart host name event) h
  | file => rw [hkind] at h haside; exact haside rfl (aside_sawOutput.andThen (aside_nativeOrCustom host _ _)) h
  | messageFinish => rw [hkind] at h haside; exact haside rfl (aside_createMessageFinishMetadataEvent host event) h
  | textStart => rw [hkind] at h haside; exact haside rfl (aside_mapTextStartEvent host event) h
  | textDelta => rw [hkind] at h haside; exact haside rfl (aside_mapTextDeltaEvent host event) h
  | textEnd => rw [hkind] at h haside; exact haside rfl (aside_mapTextEndEvent host event) h
  | reasoningStart => rw [hkind] at h haside; exact haside rfl (aside_mapReasoningStartEvent host event) h
  | reasoningDelta => rw [hkind] at h haside; exact haside rfl (aside_mapReasoningDeltaEvent host event) h
  | reasoningEnd => rw [hkind] at h haside; exact haside rfl aside_closeOpenReasoningEvent h
  | stepStart => rw [hkind] at h haside; exact haside rfl ((aside_closeOpen host).andThen (aside_nextStep host event)) h
  | stepEnd => rw [hkind] at h haside; exact haside rfl ((aside_closeOpen host).andThen aside_finishStep) h
  | error => rw [hkind] at h haside; exact haside rfl (aside_mapErrorEvent host event) h

def callEvents (id : JsText) (events : List RuntimeStreamEvent) : List RuntimeStreamEvent := events.filter (ofCall id)

theorem run_of_call (hid : id ≠ []) {events : List RuntimeStreamEvent}
    {mapped : List (AgUiEncodedEvent M)} (h : mapEvents host state events = some (state', mapped)) :
    emitAll (callStep host) (callState id state) (callEvents id events) = some (callState id state', framesOf id mapped) := by
  refine emitAll_project (fun s event s' emitted hstep hmine => ?_) (fun s event s' emitted hstep hmine => ?_) h
  · have hmine : event.kind.isTool = true ∧ asString (toolCallIdOf event) = some id := by simpa [ofCall] using hmine
    exact (stepsAs host hid hstep).own hmine.2
  · have hsteps := stepsAs host hid hstep
    by_cases hname : asString (toolCallIdOf event) = some id
    · -- Of a kind that is no tool's.
      have hother : event.kind.isTool = false := by simpa [ofCall, hname] using hmine
      have hidle := hsteps.own hname
      rw [callStep_of_not_tool host hother] at hidle
      obtain ⟨hstate, hframes⟩ := Prod.mk.inj (Option.some.inj hidle)
      exact ⟨hstate.symm, hframes.symm⟩
    · exact hsteps.other hname

/-! ## What a producer sends of a call -/

def AtMostOneResult (frames : List CallFrame) : Prop := frames = [] ∨ ∃ content isError, frames = [.result content isError]

inductive CallEnding
  | available (input : RuntimeStreamEvent) (preliminary : List RuntimeStreamEvent) (final : Option RuntimeStreamEvent)
  | direct (event : RuntimeStreamEvent)

namespace CallEnding

def events : CallEnding → List RuntimeStreamEvent
  | available input preliminary final => input :: preliminary ++ final.toList
  | direct event => [event]

def Follows : CallEnding → Prop
  | available input preliminary final =>
    input.kind = .toolInputAvailable ∧
      (∀ output ∈ preliminary, output.kind = .toolOutputAvailable ∧ isPreliminary output = true) ∧
      ∀ output ∈ final, (output.kind = .toolOutputAvailable ∧ isPreliminary output = false) ∨
        output.kind = .toolOutputError ∨ output.kind = .toolOutputDenied
  | direct event => event.kind = .toolInputError ∨ event.kind = .toolOutputError ∨ event.kind = .toolOutputDenied

def DeniedEarly : CallEnding → Prop
  | available _ _ _ => False
  | direct event => event.kind = .toolOutputDenied

def availableInput : CallEnding → Option RuntimeStreamEvent
  | available input _ _ => some input
  | direct _ => none

def reportedInput : CallEnding → Option RuntimeStreamEvent
  | available input _ _ => some input
  | direct event => if event.kind = .toolInputError then some event else none

end CallEnding

structure ToolCall where
  start : RuntimeStreamEvent
  deltas : List RuntimeStreamEvent
  ending : CallEnding

namespace ToolCall

def events (call : ToolCall) : List RuntimeStreamEvent := call.start :: call.deltas ++ call.ending.events

structure Follows (call : ToolCall) : Prop where
  start : call.start.kind = .toolInputStart
  deltas : ∀ delta ∈ call.deltas, delta.kind = .toolInputDelta
  ending : call.ending.Follows

/-- The input that was reported, serialised, when none was streamed, and what was streamed otherwise. -/
def ArgsOf (call : ToolCall) (reported : Option RuntimeStreamEvent) (args : List JsText) : Prop :=
  match reported, call.deltas with
  | some input, [] => ∃ serialized, serializedInput host input = some serialized ∧ args = [serialized]
  | _, deltas => args.flatten = (deltas.map inputDelta).flatten

structure Reported (call : ToolCall) (reported : Option RuntimeStreamEvent) (frames : List CallFrame) (after : CallState) :
    Prop where
  frames : ∃ args result, call.ArgsOf host reported args ∧
    frames = .start (call.start.field "toolName") :: args.map .args ++ .ended :: result ∧ AtMostOneResult result
  after : after = ⟨false, false⟩

end ToolCall

/-! ## The machine on such events -/

theorem emitAll_deltas (call : CallState) {deltas : List RuntimeStreamEvent}
    (h : ∀ delta ∈ deltas, delta.kind = .toolInputDelta) :
    emitAll (callStep host) call deltas =
      some (⟨call.opened, call.streamed || !deltas.isEmpty⟩, deltas.map fun delta => .args (inputDelta delta)) := by
  induction deltas generalizing call with
  | nil => simp [emitAll]
  | cons delta deltas ih =>
    have hfirst : callStep host call delta = some (⟨call.opened, true⟩, [.args (inputDelta delta)]) := by
      rw [callStep, h delta List.mem_cons_self]
    rw [emitAll, hfirst, Option.bind_some, ih _ fun d hd => h d (List.mem_cons_of_mem delta hd)]
    simp

theorem emitAll_preliminary (call : CallState) {outputs : List RuntimeStreamEvent}
    (h : ∀ output ∈ outputs, output.kind = .toolOutputAvailable ∧ isPreliminary output = true) :
    emitAll (callStep host) call outputs = some (call, []) := by
  induction outputs with
  | nil => rfl
  | cons output outputs ih =>
    obtain ⟨hkind, hpreliminary⟩ := h output List.mem_cons_self
    have hfirst : callStep host call output = some (call, []) := by
      rw [callStep, hkind, if_pos hpreliminary]
    rw [emitAll, hfirst, Option.bind_some, ih fun o ho => h o (List.mem_cons_of_mem output ho)]
    rfl

variable {frames : List CallFrame}

variable {call call' : CallState}

theorem callStep_final {output : RuntimeStreamEvent}
    (h : (output.kind = .toolOutputAvailable ∧ isPreliminary output = false) ∨ output.kind = .toolOutputError ∨
      output.kind = .toolOutputDenied)
    (hclosed : call = ⟨false, false⟩) (hrun : callStep host call output = some (call', frames)) :
    call' = ⟨false, false⟩ ∧ ∃ content isError, frames = [.result content isError] := by
  subst hclosed
  unfold callStep at hrun
  rcases h with ⟨hkind, hfinal⟩ | hkind | hkind
  · rw [hkind, if_neg (Bool.not_eq_true _ ▸ hfinal)] at hrun
    obtain ⟨rfl, rfl⟩ := Prod.mk.inj (Option.some.inj hrun)
    exact ⟨rfl, _, _, rfl⟩
  · rw [hkind] at hrun
    obtain ⟨rfl, rfl⟩ := Prod.mk.inj (Option.some.inj hrun)
    exact ⟨rfl, _, _, rfl⟩
  · rw [hkind] at hrun
    obtain ⟨rfl, rfl⟩ := Prod.mk.inj (Option.some.inj hrun)
    exact ⟨rfl, _, _, rfl⟩

def ReportedArgs (reported : Option RuntimeStreamEvent) (streamed : Bool) (args : List JsText) : Prop :=
  match reported, streamed with
  | some input, false => ∃ serialized, serializedInput host input = some serialized ∧ args = [serialized]
  | _, _ => args = []

theorem reportInput_eq {input : RuntimeStreamEvent}
    (hrun : reportInput host input call = some (call', frames)) :
    call' = ⟨false, false⟩ ∧ ∃ args, frames = args.map .args ++ [.ended] ∧
      ReportedArgs host (some input) call.streamed args := by
  unfold reportInput at hrun
  split at hrun
  · rename_i hstreamed
    obtain ⟨rfl, rfl⟩ := Prod.mk.inj (Option.some.inj hrun)
    exact ⟨rfl, [], rfl, by simp [ReportedArgs, hstreamed]⟩
  · rename_i hstreamed
    obtain ⟨serialized, hserialized, heq⟩ := Option.map_eq_some_iff.mp hrun
    obtain ⟨rfl, rfl⟩ := Prod.mk.inj heq
    exact ⟨rfl, [serialized], rfl, by simp [ReportedArgs, hstreamed, hserialized]⟩

theorem emitAll_available {input : RuntimeStreamEvent} {preliminary : List RuntimeStreamEvent}
    {final : Option RuntimeStreamEvent} (hfollows : (CallEnding.available input preliminary final).Follows)
    (hrun : emitAll (callStep host) call (CallEnding.available input preliminary final).events = some (call', frames)) :
    call' = ⟨false, false⟩ ∧ ∃ args result, frames = args.map .args ++ .ended :: result ∧
      ReportedArgs host (some input) call.streamed args ∧ AtMostOneResult result := by
  obtain ⟨hkind, hpreliminary, hfinal⟩ := hfollows
  obtain ⟨mid, first, rest, hfirst, hrest, rfl⟩ := emitAll_cons hrun
  rw [callStep, hkind] at hfirst
  obtain ⟨rfl, args, rfl, hargs⟩ := reportInput_eq host hfirst
  have hrest : emitAll (callStep host) ⟨false, false⟩ (preliminary ++ final.toList) = some (call', rest) := hrest
  rw [emitAll_append, emitAll_preliminary host _ hpreliminary] at hrest
  cases final with
  | none =>
    obtain ⟨rfl, rfl⟩ := Prod.mk.inj (Option.some.inj hrest)
    exact ⟨rfl, args, [], by simp, hargs, .inl rfl⟩
  | some output =>
    have hone : emitAll (callStep host) ⟨false, false⟩ [output] = some (call', rest) := by simpa using hrest
    obtain ⟨⟨after, result⟩, hstep, heq⟩ := Option.bind_eq_some_iff.mp hone
    obtain ⟨rfl, rfl⟩ := Prod.mk.inj (Option.some.inj heq)
    obtain ⟨rfl, hresult⟩ := callStep_final host (hfinal output rfl) rfl hstep
    exact ⟨rfl, args, result, by simp, hargs, .inr hresult⟩

theorem emitAll_direct (hfollows : (CallEnding.direct event).Follows)
    (hdenied : ¬ (CallEnding.direct event).DeniedEarly) (hopen : call.opened = true)
    (hrun : emitAll (callStep host) call (CallEnding.direct event).events = some (call', frames)) :
    call' = ⟨false, false⟩ ∧ ∃ args result, frames = args.map .args ++ .ended :: result ∧
      ReportedArgs host (CallEnding.direct event).reportedInput call.streamed args ∧ AtMostOneResult result := by
  obtain ⟨⟨after, emitted⟩, hstep, heq⟩ := Option.bind_eq_some_iff.mp hrun
  obtain ⟨rfl, rfl⟩ := Prod.mk.inj (Option.some.inj heq)
  unfold callStep at hstep
  rcases hfollows with hkind | hkind | hkind
  · rw [hkind] at hstep
    obtain ⟨⟨closed, reported⟩, hreport, heq⟩ := Option.map_eq_some_iff.mp hstep
    obtain ⟨rfl, rfl⟩ := Prod.mk.inj heq
    obtain ⟨rfl, args, rfl, hargs⟩ := reportInput_eq host hreport
    exact ⟨rfl, args, [inputErrorFrame event], by simp, by rwa [CallEnding.reportedInput, if_pos hkind],
      .inr ⟨_, _, rfl⟩⟩
  · have hclose : closeCall call = (⟨false, false⟩, [.ended]) := if_pos hopen
    simp only [hkind, Emitter.andThen, hclose, emit] at hstep
    obtain ⟨rfl, rfl⟩ := Prod.mk.inj (Option.some.inj hstep)
    have hnone : (CallEnding.direct event).reportedInput = none := by simp [CallEnding.reportedInput, hkind]
    refine ⟨rfl, [], [outputErrorFrame event], rfl, ?_, .inr ⟨_, _, rfl⟩⟩
    rw [hnone]
    rfl
  · exact absurd hkind hdenied

theorem emitAll_ending {ending : CallEnding} (hfollows : ending.Follows) (hdenied : ¬ ending.DeniedEarly)
    (hopen : call.opened = true)
    (hrun : emitAll (callStep host) call ending.events = some (call', frames)) :
    call' = ⟨false, false⟩ ∧ ∃ args result, frames = args.map .args ++ .ended :: result ∧
      ReportedArgs host ending.reportedInput call.streamed args ∧ AtMostOneResult result := by
  cases ending with
  | available input preliminary final => exact emitAll_available host hfollows hrun
  | direct event => exact emitAll_direct host hfollows hdenied hopen hrun

theorem argsOf_streamed (call : ToolCall) {reported : Option RuntimeStreamEvent} {args : List JsText}
    (h : ReportedArgs host reported (!call.deltas.isEmpty) args) :
    call.ArgsOf host reported (call.deltas.map inputDelta ++ args) := by
  unfold ToolCall.ArgsOf
  cases reported with
  | none =>
    simp only [ReportedArgs] at h
    simp [h]
  | some input =>
    cases hdeltas : call.deltas with
    | nil =>
      rw [hdeltas] at h
      simpa [ReportedArgs] using h
    | cons delta deltas =>
      rw [hdeltas] at h
      have hargs : args = [] := h
      simp [hargs]

theorem reported_of_run {call : ToolCall} (hfollows : call.Follows) (hdenied : ¬ call.ending.DeniedEarly)
    {after : CallState}
    (hrun : emitAll (callStep host) ⟨false, false⟩ call.events = some (after, frames)) :
    call.Reported host call.ending.reportedInput frames after := by
  obtain ⟨opened, first, rest, hstart, hrest, rfl⟩ := emitAll_cons hrun
  rw [callStep, hfollows.start] at hstart
  obtain ⟨rfl, rfl⟩ := Prod.mk.inj (Option.some.inj hstart)
  have hrest : emitAll (callStep host) ⟨true, false⟩ (call.deltas ++ call.ending.events) = some (after, rest) := hrest
  rw [emitAll_append, emitAll_deltas host _ hfollows.deltas] at hrest
  obtain ⟨⟨done, ended⟩, hending, heq⟩ := Option.map_eq_some_iff.mp hrest
  obtain ⟨rfl, rfl⟩ := Prod.mk.inj heq
  obtain ⟨rfl, args, result, rfl, hargs, hresult⟩ := emitAll_ending host hfollows.ending hdenied rfl hending
  refine ⟨⟨call.deltas.map inputDelta ++ args, result, argsOf_streamed host call ?_, ?_, hresult⟩, rfl⟩
  · simpa using hargs
  · simp

/-! ## A run -/

theorem mapEvents_isSome (hinput : ∀ input, (host.serializeToolInput input).isSome = true)
    (state : AgUiEncoderState M) (events : List RuntimeStreamEvent) : (mapEvents host state events).isSome = true := by
  induction events generalizing state with
  | nil => rfl
  | cons event events ih =>
    have hstep : (mapRuntimeStreamEventToAgUiEvents host state event).isSome = true := by
      have hcomplete : ∀ mid, (completeToolInput host event mid).isSome = true := by
        intro mid
        unfold completeToolInput
        split
        · rfl
        · dsimp only
          split
          · rfl
          · rw [Option.isSome_map]
            exact hinput _
      unfold mapRuntimeStreamEventToAgUiEvents
      split <;> try rfl
      · simp only [mapToolInputAvailableEvent, Option.isSome_map, hcomplete]
      · simp only [mapToolInputErrorEvent, mapToolInputAvailableEvent, Option.isSome_map, hcomplete]
    obtain ⟨mid, hmid⟩ := Option.isSome_iff_exists.mp hstep
    obtain ⟨last, hlast⟩ := Option.isSome_iff_exists.mp (ih mid.1)
    simp only [mapEvents, emitAll, hmid, Option.bind_some, Option.isSome_map] at hlast ⊢
    rw [hlast]
    rfl

/-- Whatever else a run has, a call whose events follow the producer is reported in one bracket, and nothing
of it is kept; only a denial before the input is available is not covered. -/
theorem call_reported {id : JsText} (hid : id ≠ []) {metadata : M} {events : List RuntimeStreamEvent}
    {state : AgUiEncoderState M} {mapped : List (AgUiEncodedEvent M)}
    (h : mapEvents host (createAgUiEncoderState metadata) events = some (state, mapped)) (response : Option R)
    {call : ToolCall} (hcall : callEvents id events = call.events) (hfollows : call.Follows)
    (hdenied : ¬ call.ending.DeniedEarly) :
    call.Reported host call.ending.reportedInput
      (framesOf id (mapped ++ (finalizeAgUiEvents host state response).2))
      (callState id (finalizeAgUiEvents host state response).1) := by
  have hrun := run_of_call host hid h
  rw [hcall] at hrun
  obtain ⟨hstate, hframes⟩ := aside_finalizeAgUiEvents host response id state
  have hsilent : framesOf id (finalizeAgUiEvents host state response).2 = [] := hframes
  rw [framesOf_append, hsilent, List.append_nil, hstate]
  exact reported_of_run host hfollows hdenied hrun

end Encoder

/-! ## Three calls that are reported otherwise -/

/-- What is asked of every call: the arguments are the serialised input only if it became available. -/
def AlwaysReported (id : String) (call : ToolCall) : Prop :=
  ∀ state mapped, mapEvents plainHost (createAgUiEncoderState ()) call.events = some (state, mapped) →
    call.Reported plainHost call.ending.availableInput (framesOf (js id) mapped) (callState (js id) state)

def argsIn (frames : List CallFrame) : List JsText :=
  frames.filterMap fun frame => match frame with | .args delta => some delta | _ => none

theorem ToolCall.Reported.argsIn_eq {call : ToolCall} {reported : Option RuntimeStreamEvent} {frames : List CallFrame}
    {after : CallState} (h : call.Reported plainHost reported frames after) : call.ArgsOf plainHost reported (argsIn frames) := by
  obtain ⟨args, result, hargs, rfl, hresult⟩ := h.frames
  have hnone : argsIn result = [] := by
    rcases hresult with rfl | ⟨content, isError, rfl⟩ <;> rfl
  have hall : ∀ args : List JsText, argsIn (args.map .args) = args := by
    intro args
    simp [argsIn, List.filterMap_map]
  have heq : argsIn (.start (call.start.field "toolName") :: args.map .args ++ .ended :: result) = args := by
    simp only [argsIn, List.cons_append, List.filterMap_cons, List.filterMap_append] at hnone hall ⊢
    rw [hall, hnone, List.append_nil]
  rwa [heq]

def callEvent (id type : String) : RuntimeStreamEvent := runtimeEvent type [("toolCallId", id)]

def deniedCall : ToolCall := ⟨callEvent "c" "tool-input-start", [], .direct (callEvent "c" "tool-output-denied")⟩

def failedCall : ToolCall := ⟨callEvent "c" "tool-input-start", [], .direct (callEvent "c" "tool-input-error")⟩

def unnamedCall : ToolCall :=
  ⟨callEvent "" "tool-input-start", [], .available (callEvent "" "tool-input-available") [] none⟩

/-- A call denied before its input is available stays open, a call whose input fails has arguments that were not
streamed, and a call with an empty id has no arguments. -/
theorem denied_failed_and_unnamed_not_reported :
    (deniedCall.Follows ∧ ¬ AlwaysReported "c" deniedCall) ∧ (failedCall.Follows ∧ ¬ AlwaysReported "c" failedCall) ∧
      (unnamedCall.Follows ∧ ¬ AlwaysReported "" unnamedCall) := by
  refine ⟨⟨⟨by decide, nofun, .inr (.inr (by decide))⟩, fun hall => ?_⟩,
    ⟨⟨by decide, nofun, .inl (by decide)⟩, fun hall => ?_⟩,
    ⟨⟨by decide, nofun, by decide, nofun, nofun⟩, fun hall => ?_⟩⟩
  · obtain ⟨⟨state, mapped⟩, hmap⟩ := Option.isSome_iff_exists.mp
      (mapEvents_isSome plainHost (fun _ => rfl) (createAgUiEncoderState ()) deniedCall.events)
    have hopen : (mapEvents plainHost (createAgUiEncoderState ()) deniedCall.events).map (fun r => callState (js "c") r.1) =
      some ⟨true, false⟩ := by decide
    rw [hmap] at hopen
    exact absurd ((hall state mapped hmap).after.symm.trans (Option.some.inj hopen)) (by decide)
  · obtain ⟨⟨state, mapped⟩, hmap⟩ := Option.isSome_iff_exists.mp
      (mapEvents_isSome plainHost (fun _ => rfl) (createAgUiEncoderState ()) failedCall.events)
    have hargs : (mapEvents plainHost (createAgUiEncoderState ()) failedCall.events).map
      (fun r => argsIn (framesOf (js "c") r.2)) = some [js "{}"] := by decide
    rw [hmap] at hargs
    have hread : argsIn (framesOf (js "c") mapped) = [js "{}"] := Option.some.inj hargs
    have hstreamed := (hall state mapped hmap).argsIn_eq
    rw [hread] at hstreamed
    have hempty : [js "{}"].flatten = [] := hstreamed
    exact absurd hempty (by decide)
  · obtain ⟨⟨state, mapped⟩, hmap⟩ := Option.isSome_iff_exists.mp
      (mapEvents_isSome plainHost (fun _ => rfl) (createAgUiEncoderState ()) unnamedCall.events)
    have hargs : (mapEvents plainHost (createAgUiEncoderState ()) unnamedCall.events).map
      (fun r => argsIn (framesOf (js "") r.2)) = some [] := by decide
    rw [hmap] at hargs
    obtain ⟨serialized, -, hone⟩ := (hall state mapped hmap).argsIn_eq
    exact absurd ((Option.some.inj hargs).symm.trans hone) (by simp)

def twoCalls : List RuntimeStreamEvent :=
  [callEvent "a" "tool-input-start", runtimeEvent "text-delta" [("delta", "Working")], callEvent "b" "tool-input-start",
    callEvent "a" "tool-input-available", callEvent "b" "tool-output-error", callEvent "a" "tool-output-denied"]

def firstCall : ToolCall :=
  ⟨callEvent "a" "tool-input-start", [],
    .available (callEvent "a" "tool-input-available") [] (some (callEvent "a" "tool-output-denied"))⟩

theorem call_reported_twoCalls :
    ∃ state mapped, mapEvents plainHost (createAgUiEncoderState ()) twoCalls = some (state, mapped) ∧
      firstCall.Reported plainHost firstCall.ending.reportedInput
        (framesOf (js "a") (mapped ++ (finalizeAgUiEvents plainHost state none).2))
        (callState (js "a") (finalizeAgUiEvents plainHost state none).1) := by
  obtain ⟨⟨state, mapped⟩, hmap⟩ := Option.isSome_iff_exists.mp
    (mapEvents_isSome plainHost (fun _ => rfl) (createAgUiEncoderState ()) twoCalls)
  refine ⟨state, mapped, hmap, call_reported plainHost (by decide) hmap none rfl ⟨by decide, nofun, ?_⟩ id⟩
  exact ⟨by decide, nofun, fun output h => Option.some.inj h ▸ .inr (.inr (by decide))⟩

end Veryfront.Agent.AgUi
