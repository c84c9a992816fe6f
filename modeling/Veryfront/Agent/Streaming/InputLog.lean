import Veryfront.Agent.Streaming.PartRuns

/-!
# The log of inputs

The frames about the inputs of tool calls, and what the states of the tools say about them: in which
order the calls were first seen, and which input was announced last for each.
-/

namespace Veryfront.Agent.Streaming

open Veryfront.Lib

/-! ## The frames about inputs -/

def inputId : StreamProtocolEvent → Option JsText
  | .toolInputStart id .. | .toolInputReady id .. | .toolInputRejected id .. => some id
  | _ => none

def readyInput (id : JsText) : StreamProtocolEvent → Option JsValue
  | .toolInputReady callId _ input _ _ _ => if callId = id then some input else none
  | _ => none

def frameEvents (frames : List StreamLifecycleFrame) : List StreamProtocolEvent :=
  frames.filterMap fun frame => match frame.body with
    | .semantic event => some event
    | _ => none

/-- The calls in the order in which they were first seen. -/
def seenCalls (frames : List StreamLifecycleFrame) : List JsText := ((frameEvents frames).filterMap inputId).eraseDups

def lastReadyInput (id : JsText) (frames : List StreamLifecycleFrame) : Option JsValue :=
  ((frameEvents frames).filterMap (readyInput id)).getLast?

def inputEvents (frames : List StreamLifecycleFrame) : List StreamProtocolEvent :=
  (frameEvents frames).filter fun event => (inputId event).isSome

theorem inputEvents_append (a b : List StreamLifecycleFrame) : inputEvents (a ++ b) = inputEvents a ++ inputEvents b := by
  rw [inputEvents, frameEvents, List.filterMap_append, List.filter_append]
  rfl

theorem seenCalls_eq (frames : List StreamLifecycleFrame) : seenCalls frames = ((inputEvents frames).filterMap inputId).eraseDups := by
  rw [seenCalls, inputEvents, List.filterMap_filter]
  congr 2
  funext event
  cases inputId event <;> rfl

theorem lastReadyInput_eq (id : JsText) (frames : List StreamLifecycleFrame) :
    lastReadyInput id frames = ((inputEvents frames).filterMap (readyInput id)).getLast? := by
  rw [lastReadyInput, inputEvents, List.filterMap_filter]
  congr 2
  funext event
  cases event <;> rfl

def commitEvent (json : JsonCodec) (entry : JsText × StreamToolSnapshot) : Option StreamProtocolEvent :=
  if isPendingLocalInput entry.2 then
    some (match settledInput json entry.2 with
      | .ok value => .toolInputReady entry.1 entry.2.name value none (if entry.2.dynamic then some true else none) none
      | .error reason => .toolInputRejected entry.1 entry.2.name reason)
  else none

def inputEventsOf (json : JsonCodec) (tools : Tools) (event : StreamProtocolEvent) : List StreamProtocolEvent :=
  match event with
  | .toolInputStart .. | .toolInputRejected .. => [event]
  | .toolInputReady id name _ providerExecuted dynamic _ =>
    if (tools.get? id).isSome then [event]
    else [.toolInputStart id name providerExecuted (if dynamic = some true then some true else none) false, event]
  | .stepFinish reason _ => if reason = some .toolCalls then tools.entries.filterMap (commitEvent json) else []
  | _ => []

def isInputBody : FrameBody → Bool
  | .semantic event => (inputId event).isSome
  | _ => false

section
variable {json : JsonCodec} {elapsedMs : Int} {recover : Bool} {d : StreamReduction}

theorem inputEvents_of_emits {e : StreamReduction} (h : Emits (fun body => isInputBody body = false) d e) :
    inputEvents e.frames = inputEvents d.frames := by
  obtain ⟨new, hnew, hnone⟩ := h
  have hempty : inputEvents new = [] := by
    refine List.filter_eq_nil_iff.mpr fun event hevent => ?_
    obtain ⟨frame, hframe, heq⟩ := List.mem_filterMap.mp hevent
    have hbody := hnone frame hframe
    split at heq
    · rename_i found hfound
      rw [hfound] at hbody
      rw [← Option.some.inj heq]
      exact Bool.eq_false_iff.mp hbody
    · cases heq
  rw [hnew, inputEvents_append, hempty, List.append_nil]

theorem not_isInputBody_of_derived {body : FrameBody} (h : isDerived body = true) : isInputBody body = false := by
  cases body with
  | semantic event => cases event <;> first | rfl | cases h
  | _ => rfl

theorem inputEvents_commit (entry : JsText × StreamToolSnapshot) :
    inputEvents (commitPendingInput json elapsedMs d entry).frames = inputEvents d.frames ++ (commitEvent json entry).toList := by
  unfold commitPendingInput commitEvent
  dsimp only
  cases isPendingLocalInput entry.2 with
  | false => exact (List.append_nil _).symm
  | true =>
    cases settledInput json entry.2 with
    | ok value => exact inputEvents_append ..
    | error reason => exact inputEvents_append ..

theorem inputEvents_pass {step : StreamReduction → JsText × StreamToolSnapshot → StreamReduction}
    {g : JsText × StreamToolSnapshot → Option StreamProtocolEvent}
    (hstep : ∀ d entry, inputEvents (step d entry).frames = inputEvents d.frames ++ (g entry).toList)
    (entries : List (JsText × StreamToolSnapshot)) (d : StreamReduction) :
    inputEvents (entries.foldl step d).frames = inputEvents d.frames ++ entries.filterMap g := by
  induction entries generalizing d with
  | nil => exact (List.append_nil _).symm
  | cons entry entries ih =>
    rw [List.foldl_cons, ih, hstep, List.append_assoc, List.filterMap_cons]
    cases g entry <;> rfl

theorem inputEvents_reduceProtocolEvent (event : StreamProtocolEvent) :
    inputEvents (reduceProtocolEvent json elapsedMs recover event d).frames =
      inputEvents d.frames ++ inputEventsOf json d.state.tools event := by
  have hclosed : inputEvents (d.closeOpenContent elapsedMs).frames = inputEvents d.frames :=
    inputEvents_of_emits (emits_closeOpenContent d elapsedMs fun _ => not_isInputBody_of_derived)
  cases event with
  | toolInputStart id name providerExecuted dynamic observed =>
    show inputEvents ((d.closeOpenContent elapsedMs).frames ++ [_]) = _
    rw [inputEvents_append, hclosed]
    rfl
  | toolInputReady id name input providerExecuted dynamic announced =>
    show inputEvents (StreamReduction.frames (if _ then _ else _) ++ [_]) = _
    rw [inputEvents_append, inputEventsOf]
    split
    · rfl
    · rw [StreamReduction.emit, StreamReduction.emit, inputEvents_append, inputEvents_append, List.append_assoc, List.append_assoc]
      rfl
  | toolInputRejected id name reason => exact inputEvents_append ..
  | stepFinish reason metadata =>
    show inputEvents (StreamReduction.frames (if _ then _ else _) ++ [_]) = _
    rw [inputEvents_append, inputEventsOf]
    split
    · rw [commitPendingLocalInputs]
      show inputEvents (StreamReduction.frames (List.foldl _ _ _)) ++ inputEvents [_] = _
      rw [inputEvents_pass (fun _ => inputEvents_commit), hclosed, sets_closeOpenContent.tools]
      exact List.append_nil _
    · rw [hclosed]
      rfl
  | _ =>
    rw [inputEventsOf, List.append_nil]
    · exact inputEvents_of_emits (emits_reduceProtocolEvent d elapsedMs (fun _ => not_isInputBody_of_derived) rfl json recover
        (fun _ _ _ _ => rfl) (by simp) (by simp))
    all_goals simp

end

/-! ## What the tools say about the log -/

structure InputLog (events : List StreamProtocolEvent) (tools : Tools) : Prop where
  seen : tools.keys = (events.filterMap inputId).eraseDups
  ready : ∀ id tool, tools.get? id = some tool → tool.phase = .inputReady →
    ∃ value, tool.input = some value ∧ (events.filterMap (readyInput id)).getLast? = some value
  rejected : ∀ id tool, tools.get? id = some tool → tool.phase = .inputRejected → tool.providerExecuted ≠ some true

section
variable {json : JsonCodec} {events : List StreamProtocolEvent} {tools next : Tools} {event : StreamProtocolEvent}

theorem inputLog_empty : InputLog [] .empty where
  seen := rfl
  ready _ _ h := by cases h
  rejected _ _ h := by cases h

theorem seen_set (h : InputLog events tools) {id : JsText} (tool : StreamToolSnapshot) (hid : inputId event = some id) :
    (tools.set id tool).keys = ((events ++ [event]).filterMap inputId).eraseDups := by
  have hmem : id ∈ tools.keys ↔ id ∈ events.filterMap inputId := by
    rw [h.seen]
    exact List.mem_eraseDups
  have hlast : [event].filterMap inputId = [id] := by
    rw [List.filterMap_cons, hid]
    rfl
  rw [OrdMap.keys_set, List.filterMap_append, hlast, List.eraseDups_append, ← h.seen, List.removeAll]
  generalize events.filterMap inputId = old at hmem
  by_cases hin : id ∈ old
  · rw [if_pos (hmem.mpr hin)]
    simp [hin]
  · rw [if_neg fun h => hin (hmem.mp h)]
    simp [hin, List.eraseDups_cons]

theorem readyInput_other {id k : JsText} (hid : inputId event = some id) (hk : k ≠ id) : readyInput k event = none := by
  cases event with
  | toolInputReady callId =>
    obtain rfl := Option.some.inj hid
    exact if_neg hk.symm
  | _ => rfl

theorem lastReady_other {id k : JsText} (hid : inputId event = some id) (hk : k ≠ id) :
    (events ++ [event]).filterMap (readyInput k) = events.filterMap (readyInput k) := by
  rw [List.filterMap_append, List.filterMap_cons, readyInput_other hid hk]
  exact List.append_nil _

theorem inputLog_set (h : InputLog events tools) {id : JsText} {tool : StreamToolSnapshot} (hid : inputId event = some id)
    (hready : tool.phase = .inputReady → ∃ value, tool.input = some value ∧ readyInput id event = some value)
    (hrejected : tool.phase = .inputRejected → tool.providerExecuted ≠ some true) :
    InputLog (events ++ [event]) (tools.set id tool) where
  seen := seen_set h tool hid
  ready k other hk hphase := by
    rw [OrdMap.get?_set] at hk
    split at hk
    · rename_i heq
      obtain rfl := Option.some.inj hk
      obtain ⟨value, hinput, hvalue⟩ := hready hphase
      refine ⟨value, hinput, ?_⟩
      rw [heq, List.filterMap_append, List.filterMap_cons, hvalue]
      exact List.getLast?_concat
    · rename_i hne
      rw [lastReady_other hid hne]
      exact h.ready k other hk hphase
  rejected k other hk hphase := by
    rw [OrdMap.get?_set] at hk
    split at hk
    · obtain rfl := Option.some.inj hk
      exact hrejected hphase
    · exact h.rejected k other hk hphase

def isSettledInput (phase : ToolPhase) : Bool := phase = .inputReady || phase = .inputRejected

theorem inputLog_changeTool (h : InputLog events tools) {id : JsText} {allowed : StreamToolSnapshot → Bool}
    {change : StreamToolSnapshot → StreamToolSnapshot}
    (hchange : ∀ tool, allowed tool = true → isSettledInput (change tool).phase = false)
    (hnext : changeTool tools id allowed change = some next) : InputLog events next := by
  unfold changeTool at hnext
  split at hnext
  · cases hnext
  · rename_i tool htool
    split at hnext
    · rename_i hallowed
      obtain rfl := Option.some.inj hnext
      have hmem : id ∈ tools.keys := by
        rw [← OrdMap.contains_iff, OrdMap.contains, htool]
        rfl
      have hunsettled := hchange tool hallowed
      refine ⟨(OrdMap.keys_set_of_mem hmem _).trans h.seen, fun k other hk hphase => ?_, fun k other hk hphase => ?_⟩
      · rw [OrdMap.get?_set] at hk
        split at hk
        · obtain rfl := Option.some.inj hk
          rw [hphase] at hunsettled
          cases hunsettled
        · exact h.ready k other hk hphase
      · rw [OrdMap.get?_set] at hk
        split at hk
        · obtain rfl := Option.some.inj hk
          rw [hphase] at hunsettled
          cases hunsettled
        · exact h.rejected k other hk hphase
    · cases hnext

theorem inputId_commitEvent {entry : JsText × StreamToolSnapshot} (h : commitEvent json entry = some event) :
    inputId event = some entry.1 := by
  unfold commitEvent at h
  split at h
  · obtain rfl := Option.some.inj h
    cases settledInput json entry.2 <;> rfl
  · cases h

theorem inputLog_committed (h : InputLog events tools) {g : JsText × StreamToolSnapshot → Option StreamProtocolEvent}
    (hid : ∀ entry e, g entry = some e → inputId e = some entry.1)
    (hready : ∀ entry, (g entry).bind (readyInput entry.1) = (commitEvent json entry).bind (readyInput entry.1)) :
    InputLog (events ++ tools.entries.filterMap g) (committedTools json tools) where
  seen := by
    have hold : ((tools.entries.filterMap g).filterMap inputId).removeAll (events.filterMap inputId) = [] := by
      refine List.filter_eq_nil_iff.mpr fun id hmem => ?_
      obtain ⟨event, hevent, hsome⟩ := List.mem_filterMap.mp hmem
      obtain ⟨entry, hentry, hg⟩ := List.mem_filterMap.mp hevent
      rw [hid entry event hg] at hsome
      have hkey : id ∈ tools.keys := Option.some.inj hsome ▸ List.mem_map_of_mem hentry
      rw [h.seen, List.mem_eraseDups] at hkey
      simp [hkey]
    rw [committedTools, OrdMap.keys_mapValues, List.filterMap_append, List.eraseDups_append, hold, h.seen]
    exact (List.append_nil _).symm
  ready id tool hget hphase := by
    have hown : (tools.entries.filterMap g).filterMap (readyInput id) =
        ((tools.get? id).bind fun tool => (commitEvent json (id, tool)).bind (readyInput id)).toList := by
      rw [List.filterMap_filterMap, OrdMap.filterMap_key tools id _ fun entry hne => ?_]
      · congr 2
        funext tool
        exact hready (id, tool)
      · cases hg : g entry with
        | none => rfl
        | some event => exact readyInput_other (hid entry event hg) hne.symm
    rw [committedTools, OrdMap.get?_mapValues, Option.map_eq_some_iff] at hget
    obtain ⟨prior, hprior, rfl⟩ := hget
    rw [List.filterMap_append, hown, hprior, Option.bind_some, commitEvent]
    cases hpending : isPendingLocalInput prior with
    | false =>
      rw [hpending] at hphase
      obtain ⟨value, hinput, hlast⟩ := h.ready id prior hprior hphase
      exact ⟨value, hinput, by simpa using hlast⟩
    | true =>
      rw [hpending, if_pos rfl, settledTool] at hphase
      rw [if_pos rfl, settledTool]
      cases hsettled : settledInput json prior with
      | error reason =>
        rw [hsettled] at hphase
        cases hphase
      | ok value =>
        refine ⟨value, rfl, ?_⟩
        simp [readyInput]
  rejected id tool hget hphase := by
    rw [committedTools, OrdMap.get?_mapValues, Option.map_eq_some_iff] at hget
    obtain ⟨prior, hprior, rfl⟩ := hget
    cases hpending : isPendingLocalInput prior with
    | false =>
      rw [hpending] at hphase
      exact h.rejected id prior hprior hphase
    | true =>
      rw [if_pos rfl, settledTool]
      have hlocal : prior.providerExecuted ≠ some true := by
        rw [isPendingLocalInput, Bool.and_eq_true, decide_eq_true_eq] at hpending
        exact hpending.1
      split <;> exact hlocal

theorem inputLog_step (h : InputLog events tools) (hnext : toolStep json tools event = some next) :
    InputLog (events ++ inputEventsOf json tools event) next := by
  have hsame : inputEventsOf json tools event = [] → InputLog events next → InputLog (events ++ inputEventsOf json tools event) next := by
    intro hnone hlog
    rw [hnone, List.append_nil]
    exact hlog
  cases event with
  | toolInputStart id name providerExecuted dynamic =>
    obtain rfl := Option.some.inj hnext
    exact inputLog_set h rfl (by simp [openedTool]) (by simp [openedTool])
  | toolInputRejected id name reason =>
    obtain rfl := Option.some.inj hnext
    exact inputLog_set h rfl (by simp [rejectedTool]) (by simp [rejectedTool])
  | toolInputReady id name input providerExecuted dynamic announced =>
    obtain rfl := Option.some.inj hnext
    have hvalue : readyInput id (.toolInputReady id name input providerExecuted dynamic announced) = some input := if_pos rfl
    rw [inputEventsOf]
    split
    · exact inputLog_set h rfl (fun _ => ⟨input, rfl, hvalue⟩) (by simp [readyTool])
    · -- the announcement opens the call first
      have hopened : InputLog (events ++ [.toolInputStart id name providerExecuted (if dynamic = some true then some true else none) false])
          (tools.set id (openedTool id name providerExecuted dynamic)) := inputLog_set h rfl (by simp [openedTool]) (by simp [openedTool])
      have hset : InputLog (_ ++ [.toolInputReady id name input providerExecuted dynamic announced])
          (OrdMap.set _ id (readyTool json (tools.get? id) id name input providerExecuted dynamic)) :=
        inputLog_set hopened rfl (fun _ => ⟨input, rfl, hvalue⟩) (by simp [readyTool])
      rw [OrdMap.set_set, List.append_assoc] at hset
      exact hset
  | toolInputContent id delta => exact hsame rfl (inputLog_changeTool h (fun _ _ => rfl) hnext)
  | providerToolStart id name => exact hsame rfl (inputLog_changeTool h (fun _ _ => rfl) hnext)
  | providerToolResult | providerToolDenied | providerToolCancelled =>
    refine hsame rfl (inputLog_changeTool h (fun tool hrunning => ?_) hnext)
    rw [isProviderTool, Bool.and_eq_true, decide_eq_true_eq, decide_eq_true_eq] at hrunning
    unfold endedTool
    split
    · rw [hrunning.2]
      rfl
    · unfold terminateTool
      split <;> first | rfl | (rw [hrunning.2]; rfl)
  | stepFinish reason metadata =>
    obtain rfl := Option.some.inj hnext
    rw [inputEventsOf]
    split
    · exact inputLog_committed h (fun _ _ => inputId_commitEvent) fun _ => rfl
    · rw [List.append_nil]
      exact h
  | _ =>
    obtain rfl := Option.some.inj hnext
    exact hsame rfl h

end

end Veryfront.Agent.Streaming
