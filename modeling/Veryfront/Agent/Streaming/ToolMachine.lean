import Veryfront.Agent.Streaming.FrameSafety

/-!
# The tools of a stream

What an event does to the tools depends on the tools alone. This is the machine that the reducer
runs on them; the reducer adds frames, and a failed step makes it terminal.
-/

namespace Veryfront.Agent.Streaming

open Veryfront.Lib

abbrev Tools := OrdMap JsText StreamToolSnapshot

/-! ## The machine -/

def isOpenInput (phase : ToolPhase) : Bool := phase = .inputOpen || phase = .inputStreaming

def openedTool (id name : JsText) (providerExecuted dynamic : Option Bool) : StreamToolSnapshot where
  id
  name
  phase := .inputOpen
  inputText := []
  inputDeltas := []
  providerExecuted
  dynamic := dynamic = some true

def extendedTool (delta : JsText) (tool : StreamToolSnapshot) : StreamToolSnapshot :=
  { tool with
    phase := .inputStreaming
    inputText := mergeToolInputDelta tool.inputText delta
    inputDeltas := tool.inputDeltas ++ [delta] }

def readyTool (json : JsonCodec) (prior : Option StreamToolSnapshot) (id name : JsText) (input : JsValue)
    (providerExecuted dynamic : Option Bool) : StreamToolSnapshot where
  id
  name
  phase := .inputReady
  inputText := finalInputText json prior input
  inputDeltas := (prior.map StreamToolSnapshot.inputDeltas).getD []
  input := some input
  providerExecuted
  dynamic := dynamic = some true

def rejectedTool (prior : Option StreamToolSnapshot) (id name : JsText) (reason : RejectionReason) : StreamToolSnapshot where
  id
  name
  phase := .inputRejected
  inputText := (prior.map StreamToolSnapshot.inputText).getD []
  inputDeltas := (prior.map StreamToolSnapshot.inputDeltas).getD []
  rejectionReason := some reason

/-- The commit of an input that is still open. -/
def settledTool (json : JsonCodec) (tool : StreamToolSnapshot) : StreamToolSnapshot :=
  match settledInput json tool with
  | .ok value => { tool with phase := .inputReady, input := some value }
  | .error reason => { tool with phase := .inputRejected, rejectionReason := some reason }

def committedTools (json : JsonCodec) (tools : Tools) : Tools :=
  tools.mapValues fun _ tool => if isPendingLocalInput tool then settledTool json tool else tool

def changeTool (tools : Tools) (id : JsText) (allowed : StreamToolSnapshot → Bool)
    (change : StreamToolSnapshot → StreamToolSnapshot) : Option Tools :=
  match tools.get? id with
  | none => none
  | some tool => if allowed tool then some (tools.set id (change tool)) else none

def isProviderTool (phase : ToolPhase) (tool : StreamToolSnapshot) : Bool :=
  tool.providerExecuted = some true && tool.phase = phase

def endedTool (event : StreamProtocolEvent) (tool : StreamToolSnapshot) : StreamToolSnapshot :=
  if isPreliminary event then tool else terminateTool tool event

/-- `none` is a violation of the protocol. -/
def toolStep (json : JsonCodec) (tools : Tools) (event : StreamProtocolEvent) : Option Tools :=
  match event with
  | .toolInputStart id name providerExecuted dynamic _ => some (tools.set id (openedTool id name providerExecuted dynamic))
  | .toolInputContent id delta => changeTool tools id (fun tool => isOpenInput tool.phase) (extendedTool delta)
  | .toolInputReady id name input providerExecuted dynamic _ =>
    some (tools.set id (readyTool json (tools.get? id) id name input providerExecuted dynamic))
  | .toolInputRejected id name reason => some (tools.set id (rejectedTool (tools.get? id) id name reason))
  | .providerToolStart id _ =>
    changeTool tools id (isProviderTool .inputReady) fun tool => { tool with phase := .running }
  | .providerToolResult id .. | .providerToolDenied id _ | .providerToolCancelled id _ =>
    changeTool tools id (isProviderTool .running) (endedTool event)
  | .stepFinish reason _ => some (if reason = some .toolCalls then committedTools json tools else tools)
  | _ => some tools

def isStepFinishEvent : StreamProtocolEvent → Bool
  | .stepFinish .. => true
  | _ => false

theorem isOpenInput_iff {phase : ToolPhase} : isOpenInput phase = true ↔ ¬(phase ≠ .inputOpen ∧ phase ≠ .inputStreaming) := by
  cases phase <;> decide

theorem isProviderTool_iff {phase : ToolPhase} {tool : StreamToolSnapshot} :
    isProviderTool phase tool = true ↔ ¬(tool.providerExecuted ≠ some true ∨ tool.phase ≠ phase) := by
  rw [isProviderTool, Bool.and_eq_true, decide_eq_true_eq, decide_eq_true_eq, not_or, not_not, not_not]

/-! ## The reducer runs the machine -/

section
variable {json : JsonCodec} {elapsedMs : Int} {recover : Bool} {d : StreamReduction}

/-- A step that leaves the tools given, and says nothing about the end of the stream. -/
structure SetsTools (d : StreamReduction) (tools : Tools) (e : StreamReduction) : Prop where
  tools : e.state.tools = tools
  terminal : e.state.terminal = d.state.terminal
  error : e.state.terminalError = d.state.terminalError

structure ToolOutcome (event : StreamProtocolEvent) (next : Option Tools) (d e : StreamReduction) : Prop where
  tools : e.state.tools = next.getD d.state.tools
  terminal : e.state.terminal = (next.isNone || isStepFinishEvent event || d.state.terminal)
  error : next.isSome = true → isStepFinishEvent event = false → e.state.terminalError = d.state.terminalError

variable {e : StreamReduction}

theorem SetsTools.trans {t u : Tools} {f : StreamReduction} (h : SetsTools d t e) (g : SetsTools e u f) : SetsTools d u f :=
  ⟨g.tools, g.terminal.trans h.terminal, g.error.trans h.error⟩

theorem SetsTools.outcome {event : StreamProtocolEvent} {t : Tools} (h : SetsTools d t e)
    (hevent : isStepFinishEvent event = false) : ToolOutcome event (some t) d e :=
  ⟨h.tools, by rw [h.terminal, hevent]; rfl, fun _ _ => h.error⟩

theorem outcome_failProtocol (event : StreamProtocolEvent) : ToolOutcome event none d (d.failProtocol elapsedMs) :=
  ⟨rfl, rfl, nofun⟩

theorem sets_closeReasoning : SetsTools d d.state.tools (d.closeReasoning elapsedMs) := by
  unfold StreamReduction.closeReasoning
  split <;> exact ⟨rfl, rfl, rfl⟩

theorem sets_closeText : SetsTools d d.state.tools (d.closeText elapsedMs) := by
  unfold StreamReduction.closeText
  split <;> exact ⟨rfl, rfl, rfl⟩

theorem SetsTools.closeText (h : SetsTools d d.state.tools e) : SetsTools d d.state.tools (e.closeText elapsedMs) :=
  h.trans (h.tools ▸ sets_closeText)

theorem SetsTools.closeReasoning (h : SetsTools d d.state.tools e) :
    SetsTools d d.state.tools (e.closeReasoning elapsedMs) :=
  h.trans (h.tools ▸ sets_closeReasoning)

theorem sets_closeOpenContent : SetsTools d d.state.tools (d.closeOpenContent elapsedMs) := sets_closeReasoning.closeText

theorem tools_recordProgress (d : StreamReduction) : (recordProgress d).state.tools = d.state.tools := by
  unfold recordProgress
  split <;> rfl

theorem error_recordProgress (d : StreamReduction) : (recordProgress d).state.terminalError = d.state.terminalError := by
  unfold recordProgress
  split <;> rfl

theorem sets_reduceReasoningContent (id delta : JsText) :
    SetsTools d d.state.tools (reduceReasoningContent elapsedMs id delta d) := by
  have hopen : SetsTools d d.state.tools (if (d.closeText elapsedMs).state.activeReasoningId = some id then d.closeText elapsedMs
      else ((((d.closeText elapsedMs).closeReasoning elapsedMs).openReasoning id).emit elapsedMs
        (.semantic (.reasoningStart id))).emit elapsedMs (.protocolRepair .implicitReasoningStart)) := by
    have hclosed : SetsTools d d.state.tools ((d.closeText elapsedMs).closeReasoning elapsedMs) := sets_closeText.closeReasoning
    split
    · exact sets_closeText
    · exact ⟨hclosed.tools, hclosed.terminal, hclosed.error⟩
  unfold reduceReasoningContent
  dsimp only
  split <;> exact ⟨hopen.tools, hopen.terminal, hopen.error⟩

theorem sets_reduceTextContent (delta : JsText) : SetsTools d d.state.tools (reduceTextContent elapsedMs delta d) := by
  have hclosed : SetsTools d d.state.tools (d.closeReasoning elapsedMs) := sets_closeReasoning
  have hopen : SetsTools d d.state.tools (if (d.closeReasoning elapsedMs).state.activeTextId.isSome then d.closeReasoning elapsedMs
      else ((d.closeReasoning elapsedMs).openText elapsedMs).emit elapsedMs (.protocolRepair .implicitTextStart)) := by
    split
    · exact hclosed
    · exact ⟨hclosed.tools, hclosed.terminal, hclosed.error⟩
  unfold reduceTextContent
  dsimp only
  split <;> exact ⟨hopen.tools, hopen.terminal, hopen.error⟩

theorem sets_commitPendingInput (entry : JsText × StreamToolSnapshot) :
    SetsTools d (if isPendingLocalInput entry.2 then d.state.tools.set entry.1 (settledTool json entry.2) else d.state.tools)
      (commitPendingInput json elapsedMs d entry) := by
  unfold commitPendingInput settledTool
  dsimp only
  cases isPendingLocalInput entry.2 with
  | false => exact ⟨rfl, rfl, rfl⟩
  | true => cases settledInput json entry.2 <;> exact ⟨rfl, rfl, rfl⟩

variable {step : StreamReduction → JsText × StreamToolSnapshot → StreamReduction}

theorem sets_pass
    (hstep : ∀ d entry, SetsTools d (if isPendingLocalInput entry.2 then d.state.tools.set entry.1 (settledTool json entry.2)
      else d.state.tools) (step d entry)) (entries : List (JsText × StreamToolSnapshot)) (d : StreamReduction) :
    SetsTools d (entries.foldl (fun acc e => if isPendingLocalInput e.2 then acc.set e.1 (settledTool json e.2) else acc) d.state.tools)
      (entries.foldl step d) := by
  induction entries generalizing d with
  | nil => exact ⟨rfl, rfl, rfl⟩
  | cons entry entries ih =>
    have hfirst := hstep d entry
    have hrest := ih (step d entry)
    rw [hfirst.tools] at hrest
    exact hfirst.trans hrest

theorem sets_commit_pass
    (hstep : ∀ d entry, SetsTools d (if isPendingLocalInput entry.2 then d.state.tools.set entry.1 (settledTool json entry.2)
      else d.state.tools) (step d entry)) (d : StreamReduction) :
    SetsTools d (committedTools json d.state.tools) (d.state.tools.entries.foldl step d) := by
  have hpass : SetsTools d (d.state.tools.entries.foldl (fun acc e => if isPendingLocalInput e.2 then
      acc.set e.1 (settledTool json e.2) else acc) d.state.tools) (d.state.tools.entries.foldl step d) :=
    sets_pass hstep d.state.tools.entries d
  rw [OrdMap.foldl_set_eq_mapValues d.state.tools (fun _ tool => isPendingLocalInput tool) fun _ tool => settledTool json tool] at hpass
  exact hpass

theorem sets_commitPendingLocalInputs :
    SetsTools d (committedTools json d.state.tools) (commitPendingLocalInputs json elapsedMs d) := by
  have hpass : SetsTools d (committedTools json d.state.tools)
      (d.state.tools.entries.foldl (commitPendingInput json elapsedMs) d) :=
    sets_commit_pass (fun _ => sets_commitPendingInput) d
  exact ⟨hpass.tools, hpass.terminal, hpass.error⟩

theorem outcome_reduceProtocolEvent (event : StreamProtocolEvent) :
    ToolOutcome event (toolStep json d.state.tools event) d (reduceProtocolEvent json elapsedMs recover event d) := by
  cases event with
  | messageStart | stepStart => exact SetsTools.outcome ⟨rfl, rfl, rfl⟩ rfl
  | textStart =>
    have hclosed : SetsTools d d.state.tools ((d.closeReasoning elapsedMs).closeText elapsedMs) := sets_closeReasoning.closeText
    exact SetsTools.outcome ⟨hclosed.tools, hclosed.terminal, hclosed.error⟩ rfl
  | textContent _ delta => exact (sets_reduceTextContent delta).outcome rfl
  | textEnd => exact sets_closeText.outcome rfl
  | reasoningStart =>
    have hclosed : SetsTools d d.state.tools ((d.closeText elapsedMs).closeReasoning elapsedMs) := sets_closeText.closeReasoning
    exact SetsTools.outcome ⟨hclosed.tools, hclosed.terminal, hclosed.error⟩ rfl
  | reasoningContent id delta => exact (sets_reduceReasoningContent id delta).outcome rfl
  | reasoningEnd =>
    simp only [reduceProtocolEvent, reduceReasoningEnd]
    split <;> exact SetsTools.outcome ⟨rfl, rfl, rfl⟩ rfl
  | toolInputStart id name providerExecuted dynamic =>
    have hclosed : SetsTools d d.state.tools (d.closeOpenContent elapsedMs) := sets_closeOpenContent
    refine SetsTools.outcome ⟨?_, hclosed.terminal, hclosed.error⟩ rfl
    show (d.closeOpenContent elapsedMs).state.tools.set id _ = _
    rw [hclosed.tools]
    rfl
  | toolInputContent id delta =>
    simp only [reduceProtocolEvent, appendToolInput, toolStep, changeTool]
    cases d.state.tools.get? id with
    | none => exact outcome_failProtocol _
    | some tool =>
      by_cases hphase : tool.phase ≠ .inputOpen ∧ tool.phase ≠ .inputStreaming
      · simp only [if_pos hphase, if_neg fun h => isOpenInput_iff.mp h hphase]
        exact outcome_failProtocol _
      · simp only [if_neg hphase, if_pos (isOpenInput_iff.mpr hphase)]
        exact SetsTools.outcome ⟨rfl, rfl, rfl⟩ rfl
  | toolInputReady id name input providerExecuted dynamic announced =>
    have hstart : SetsTools d d.state.tools (if (d.state.tools.get? id).isSome then d else
        (d.emit elapsedMs (.semantic (.toolInputStart id name providerExecuted
          (if dynamic = some true then some true else none) false))).emit elapsedMs
          (.protocolRepair .implicitToolInputStart)) := by
      split <;> exact ⟨rfl, rfl, rfl⟩
    refine SetsTools.outcome ⟨?_, hstart.terminal, hstart.error⟩ rfl
    show OrdMap.set (StreamReduction.state (if _ then _ else _)).tools id _ = _
    rw [hstart.tools]
    rfl
  | toolInputRejected id name reason => exact SetsTools.outcome ⟨rfl, rfl, rfl⟩ rfl
  | providerToolStart id name =>
    simp only [reduceProtocolEvent, startProviderTool, toolStep, changeTool]
    cases d.state.tools.get? id with
    | none => exact outcome_failProtocol _
    | some tool =>
      by_cases hphase : tool.providerExecuted ≠ some true ∨ tool.phase ≠ .inputReady
      · simp only [if_pos hphase, if_neg fun h => isProviderTool_iff.mp h hphase]
        exact outcome_failProtocol _
      · simp only [if_neg hphase, if_pos (isProviderTool_iff.mpr hphase)]
        exact SetsTools.outcome ⟨rfl, rfl, rfl⟩ rfl
  | providerToolResult id | providerToolDenied id | providerToolCancelled id =>
    simp only [reduceProtocolEvent, endProviderTool, toolStep, changeTool]
    cases htool : d.state.tools.get? id with
    | none => exact outcome_failProtocol _
    | some tool =>
      by_cases hphase : tool.providerExecuted ≠ some true ∨ tool.phase ≠ .running
      · simp only [if_pos hphase, if_neg fun h => isProviderTool_iff.mp h hphase]
        exact outcome_failProtocol _
      · simp only [if_neg hphase, if_pos (isProviderTool_iff.mpr hphase)]
        unfold endedTool
        split
        · exact SetsTools.outcome ⟨(OrdMap.set_self htool).symm, rfl, rfl⟩ rfl
        · exact SetsTools.outcome ⟨rfl, rfl, rfl⟩ rfl
  | stepFinish reason metadata =>
    refine ⟨?_, rfl, by simp [isStepFinishEvent]⟩
    show (StreamReduction.state (if _ then _ else _)).tools = (if _ then _ else _ : Tools)
    have hclosed : SetsTools d d.state.tools (d.closeOpenContent elapsedMs) := sets_closeOpenContent
    split
    · rw [sets_commitPendingLocalInputs.tools, hclosed.tools]
    · exact hclosed.tools
  | custom =>
    simp only [reduceProtocolEvent, reduceCustom]
    split
    · split <;> exact SetsTools.outcome ⟨rfl, rfl, rfl⟩ rfl
    · exact SetsTools.outcome ⟨rfl, rfl, rfl⟩ rfl

end

end Veryfront.Agent.Streaming
