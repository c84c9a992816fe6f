import Veryfront.Agent.Streaming.PartRuns

/-!
# The results of the provider's tools

A call that the provider has ended keeps its result. The decoder filters a late result and the end
of a late input, but not a late start or a late final input: these make a new entry of the call.
-/

namespace Veryfront.Agent.Streaming

open Veryfront.Lib

/-! ## Finished calls -/

def finishedTool (tools : Tools) (id : JsText) : Bool := (tools.get? id).any fun tool => isTerminalPhase tool.phase

/-- The call whose entry an event replaces, in whatever phase it is. -/
def overwrittenTool : StreamProtocolEvent → Option JsText
  | .toolInputStart id .. | .toolInputReady id .. | .toolInputRejected id .. => some id
  | _ => none

def isFinalResult (id : JsText) : FrameBody → Bool
  | .semantic (.providerToolResult callId _ _ _ _ preliminary) => callId = id && preliminary ≠ some true
  | _ => false

def finalResults (id : JsText) (frames : List StreamLifecycleFrame) : List StreamLifecycleFrame :=
  frames.filter fun frame => isFinalResult id frame.body

/-- From one state to another, finished calls stay as they are and no second result is emitted. -/
structure Absorbing (s : Tools) (frames : List StreamLifecycleFrame) (t : Tools) : Prop where
  kept : ∀ id tool, s.get? id = some tool → isTerminalPhase tool.phase = true → t.get? id = some tool
  results : ∀ id, finalResults id frames = [] ∨
    (finalResults id frames).length = 1 ∧ finishedTool s id = false ∧ finishedTool t id = true

section
variable {s t u : Tools} {frames rest : List StreamLifecycleFrame} {id : JsText}

theorem finishedTool_iff : finishedTool s id = true ↔ ∃ tool, s.get? id = some tool ∧ isTerminalPhase tool.phase = true := by
  rw [finishedTool, Option.any_eq_true]

theorem Absorbing.refl : Absorbing s [] s := ⟨fun _ _ h _ => h, fun _ => .inl rfl⟩

theorem Absorbing.finished (h : Absorbing s frames t) (hs : finishedTool s id = true) : finishedTool t id = true := by
  obtain ⟨tool, htool, hphase⟩ := finishedTool_iff.mp hs
  exact finishedTool_iff.mpr ⟨tool, h.kept id tool htool hphase, hphase⟩

theorem Absorbing.trans (h : Absorbing s frames t) (g : Absorbing t rest u) : Absorbing s (frames ++ rest) u where
  kept id tool htool hphase := g.kept id tool (h.kept id tool htool hphase) hphase
  results id := by
    unfold finalResults
    rw [List.filter_append, List.length_append]
    rcases h.results id with hnone | ⟨hone, hlive, hdone⟩
    · rw [finalResults] at hnone
      rw [hnone, List.nil_append, List.length_nil, Nat.zero_add]
      refine (g.results id).imp_right fun ⟨hone, hlive, hdone⟩ => ⟨hone, ?_, hdone⟩
      -- Were it finished before, it would have been finished in between.
      exact Bool.eq_false_iff.mpr fun hs => Bool.eq_false_iff.mp hlive (h.finished hs)
    · rcases g.results id with hnone | ⟨-, hlive', -⟩
      · rw [finalResults] at hnone
        exact .inr ⟨by rw [hnone, List.length_nil]; exact hone, hlive, g.finished hdone⟩
      · rw [hdone] at hlive'
        cases hlive'

theorem Absorbing.once (h : Absorbing s frames t) : (finalResults id frames).length ≤ 1 := by
  rcases h.results id with hnone | ⟨hone, -⟩
  · rw [hnone]
    exact Nat.zero_le 1
  · exact hone.le

end

/-! ## One event -/

section
variable {json : JsonCodec} {tools next : Tools} {id : JsText} {tool : StreamToolSnapshot}

theorem changeTool_keeps {callId : JsText} {allowed : StreamToolSnapshot → Bool} {change : StreamToolSnapshot → StreamToolSnapshot}
    (htool : tools.get? id = some tool) (hnot : allowed tool = false) (hnext : changeTool tools callId allowed change = some next) :
    next.get? id = some tool := by
  unfold changeTool at hnext
  split at hnext
  · cases hnext
  · rename_i other hother
    split at hnext
    · rename_i hallowed
      obtain rfl := Option.some.inj hnext
      rw [OrdMap.get?_set]
      split
      · rename_i heq
        rw [← heq, htool] at hother
        rw [← Option.some.inj hother, hnot] at hallowed
        cases hallowed
      · exact htool
    · cases hnext

theorem not_provider_of_terminal {phase : ToolPhase} (hphase : isTerminalPhase tool.phase = true)
    (hearly : isTerminalPhase phase = false) : isProviderTool phase tool = false := by
  refine Bool.eq_false_iff.mpr fun h => ?_
  rw [isProviderTool, Bool.and_eq_true, decide_eq_true_eq, decide_eq_true_eq] at h
  rw [h.2, hearly] at hphase
  cases hphase

theorem toolStep_keeps {event : StreamProtocolEvent} (htool : tools.get? id = some tool) (hphase : isTerminalPhase tool.phase = true)
    (hevent : overwrittenTool event ≠ some id) (hnext : toolStep json tools event = some next) : next.get? id = some tool := by
  have hset : ∀ {callId : JsText} {fresh : StreamToolSnapshot}, some callId ≠ some id →
      (tools.set callId fresh).get? id = some tool := by
    intro callId fresh hne
    rw [OrdMap.get?_set, if_neg fun heq => hne (by rw [heq])]
    exact htool
  cases event with
  | toolInputStart | toolInputReady | toolInputRejected =>
    obtain rfl := Option.some.inj hnext
    exact hset hevent
  | toolInputContent =>
    refine changeTool_keeps htool ?_ hnext
    revert hphase
    cases tool.phase <;> decide
  | providerToolStart => exact changeTool_keeps htool (not_provider_of_terminal hphase rfl) hnext
  | providerToolResult | providerToolDenied | providerToolCancelled =>
    exact changeTool_keeps htool (not_provider_of_terminal hphase rfl) hnext
  | stepFinish =>
    obtain rfl := Option.some.inj hnext
    split
    · have hsettled : isPendingLocalInput tool = false := by
        unfold isPendingLocalInput
        revert hphase
        cases tool.phase <;> simp [isTerminalPhase]
      rw [committedTools, OrdMap.get?_mapValues, htool, Option.map_some, hsettled]
      rfl
    · exact htool
  | _ =>
    obtain rfl := Option.some.inj hnext
    exact htool

variable {elapsedMs : Int} {recover : Bool} {state : StreamReducerState}

theorem finalResults_emits {e : StreamReduction} (h : Emits (fun body => isFinalResult id body = false) { state } e) :
    finalResults id e.frames = [] := by
  obtain ⟨new, hnew, hnone⟩ := h
  rw [hnew, List.nil_append, finalResults, List.filter_eq_nil_iff]
  exact fun frame hframe => Bool.eq_false_iff.mp (hnone frame hframe)

theorem not_isFinalResult_of_derived {body : FrameBody} (h : isDerived body = true) : isFinalResult id body = false := by
  cases body with
  | semantic event => cases event <;> first | rfl | cases h
  | _ => rfl

theorem not_isFinalResult_of_commit {body : FrameBody} (h : isCommit body = true) : isFinalResult id body = false := by
  cases body with
  | semantic event => cases event <;> first | rfl | cases h
  | _ => rfl

theorem finalResults_event (event : StreamProtocolEvent) (id : JsText) :
    let d := reduceProtocolEvent json elapsedMs recover event { state }
    finalResults id d.frames = [] ∨
      (finalResults id d.frames).length = 1 ∧ finishedTool state.tools id = false ∧ finishedTool d.state.tools id = true := by
  dsimp only
  by_cases hresult : isFinalResult id (.semantic event) = true
  · cases event with
    | providerToolResult callId name output isError dynamic preliminary =>
      have hparts : callId = id ∧ preliminary ≠ some true := by
        simpa [isFinalResult] using hresult
      obtain ⟨rfl, hfinal⟩ := hparts
      have houtcome : ToolOutcome _ _ { state } (reduceProtocolEvent json elapsedMs recover
          (.providerToolResult callId name output isError dynamic preliminary) { state }) :=
        outcome_reduceProtocolEvent (d := { state }) (.providerToolResult callId name output isError dynamic preliminary)
      rw [houtcome.tools]
      simp only [reduceProtocolEvent, endProviderTool, toolStep, changeTool]
      cases htool : state.tools.get? callId with
      | none => exact .inl rfl
      | some tool =>
        by_cases hphase : tool.providerExecuted ≠ some true ∨ tool.phase ≠ .running
        · simp only [if_pos hphase]
          exact .inl rfl
        · have hpreliminary : isPreliminary (.providerToolResult callId name output isError dynamic preliminary) = false :=
            decide_eq_false hfinal
          have hrunning : tool.phase = .running := (not_not.mp (not_or.mp hphase).2)
          have hdone : isTerminalPhase (terminateTool tool
              (.providerToolResult callId name output isError dynamic preliminary)).phase = true := by
            cases isError <;> rfl
          simp only [if_neg hphase, hpreliminary, if_pos (isProviderTool_iff.mpr hphase), endedTool]
          refine .inr ⟨?_, ?_, ?_⟩
          · show (List.filter _ ([] ++ [_])).length = 1
            simp only [List.nil_append, List.filter_cons, hresult, if_true]
            rfl
          · rw [finishedTool, htool, Option.any_some, hrunning]
            rfl
          · rw [finishedTool]
            show ((state.tools.set callId _).get? callId).any _ = true
            rw [OrdMap.get?_set, if_pos rfl]
            exact hdone
    | _ => cases hresult
  · have hself : isFinalResult id (.semantic event) = false := Bool.eq_false_iff.mpr hresult
    by_cases hstep : ∃ reason metadata, event = .stepFinish reason metadata
    · obtain ⟨reason, metadata, rfl⟩ := hstep
      obtain ⟨e, he, hframes⟩ := emits_finishStep (P := fun body => isFinalResult id body = false) { state } elapsedMs
        (fun _ => not_isFinalResult_of_derived) (fun _ => not_isFinalResult_of_commit) json recover reason metadata
      left
      rw [show (reduceProtocolEvent json elapsedMs recover (.stepFinish reason metadata) { state }).frames = _ from hframes]
      exact finalResults_emits (e := e.emit elapsedMs _) (he.emit _ elapsedMs hself)
    · have hne : ∀ reason metadata, event ≠ .stepFinish reason metadata := fun reason metadata he => hstep ⟨reason, metadata, he⟩
      exact .inl (finalResults_emits (emits_reduceProtocolEvent _ elapsedMs (fun _ => not_isFinalResult_of_derived) hself json recover
        (fun _ _ _ _ => rfl) (fun _ _ _ _ _ _ _ _ => rfl) hne))

end

/-! ## Signals -/

/-- A new start or final input for a call that has its result. -/
def restarts (state : StreamReducerState) : StreamSignal → Bool
  | .protocol event => !state.terminal && (overwrittenTool event).any fun id => finishedTool state.tools id
  | _ => false

def NoSignalRestarts (json : JsonCodec) : StreamReducerState → List SignalCall → Prop
  | _, [] => True
  | state, call :: calls => restarts state call.signal = false ∧
      ∀ d, reduceStreamSignal json call.elapsedMs call.recoverUnavailableToolCalls state call.signal = some d →
        NoSignalRestarts json d.state calls

section
variable {json : JsonCodec} {elapsedMs : Int} {recover : Bool} {s t : StreamReducerState}

theorem absorbing_signal {signal : StreamSignal} {d : StreamReduction} (hno : restarts s signal = false)
    (hd : reduceStreamSignal json elapsedMs recover s signal = some d) : Absorbing s.tools d.frames d.state.tools := by
  have htools := tools_reduceStreamSignal hd
  by_cases hterm : s.terminal = true
  · rw [reduceStreamSignal_terminal hterm] at hd
    obtain rfl := Option.some.inj hd
    exact ⟨fun _ _ h _ => h, fun _ => .inl rfl⟩
  · unfold signalTools at htools
    rw [if_neg hterm] at htools
    simp only [reduceStreamSignal, if_neg hterm] at hd
    cases signal with
    | usage | providerError | diagnosticCandidate =>
      obtain rfl := Option.some.inj hd
      exact ⟨fun _ _ h _ => h, fun _ => .inl rfl⟩
    | protocol event =>
      dsimp only at hd
      split at hd
      · cases hd
      · obtain rfl := Option.some.inj hd
        refine ⟨fun id tool htool hphase => ?_, fun id => ?_⟩
        · rw [htools]
          dsimp only
          cases hnext : toolStep json s.tools event with
          | none => exact htool
          | some next =>
            rw [Option.getD_some]
            refine toolStep_keeps htool hphase (fun hover => ?_) hnext
            rw [restarts, hover, Option.any_some, finishedTool_iff.mpr ⟨tool, htool, hphase⟩, Bool.and_true,
              Bool.not_eq_false'] at hno
            exact hterm hno
        · rw [frames_recordProgress, tools_recordProgress]
          exact finalResults_event event id

theorem absorbing_signals {calls : List SignalCall} {frames : List StreamLifecycleFrame} (hno : NoSignalRestarts json s calls)
    (hrun : reduceSignals json s calls = some (t, frames)) : Absorbing s.tools frames t.tools := by
  induction calls generalizing s frames with
  | nil =>
    obtain ⟨rfl, rfl⟩ := Prod.mk.inj (Option.some.inj hrun)
    exact .refl
  | cons call calls ih =>
    obtain ⟨d, hd, rest, hrest, rfl⟩ := reduceSignals_cons.mp hrun
    exact (absorbing_signal hno.1 hd).trans (ih (hno.2 d hd) hrest)

end

/-! ## Parts -/

/-- The call that a part starts or gives its final input, whatever came before. -/
def restartedTool : RuntimeStreamPart → Option JsText
  | .toolInputStart id .. => some id
  | .toolCall id .. => if id.length = 0 then none else some id
  | .toolInputAvailable toolCallId id .. => if ((toolCallId.or id).getD []).length = 0 then none else some ((toolCallId.or id).getD [])
  | _ => none

def restartsFinishedTool (state : StreamReducerState) (part : RuntimeStreamPart) : Bool :=
  !state.terminal && (restartedTool part).any fun id =>
    (findTool state.snapshot id).any fun tool => isTerminalPhase tool.phase

section
variable {env : AdapterEnvironment} {options : RuntimeStreamProviderOptions} {s t : StreamReducerState}
  {prior frames : List StreamLifecycleFrame}

theorem restarts_other {signal : StreamSignal} (h : ∀ event, signal = .protocol event → overwrittenTool event = none) :
    restarts s signal = false := by
  cases signal with
  | protocol event => rw [restarts, h event rfl, Option.any_none, Bool.and_false]
  | _ => rfl

variable {event : StreamProtocolEvent}

theorem restarts_unfinished (h : ∀ id, overwrittenTool event = some id → finishedTool s.tools id = false) :
    restarts s (.protocol event) = false := by
  rw [restarts]
  cases hover : overwrittenTool event with
  | none => rw [Option.any_none, Bool.and_false]
  | some id => rw [Option.any_some, h id hover, Bool.and_false]

variable {json : JsonCodec}

theorem noSignalRestarts_single {call : SignalCall} (h : restarts s call.signal = false) :
    NoSignalRestarts json s [call] := ⟨h, fun _ _ => trivial⟩

variable {signals : List StreamSignal}

theorem toolReadySignals_cases {toolCallId toolName partType : JsText} {input : JsValue}
    {providerExecuted dynamic announced : Option Bool} (hid : toolCallId.length ≠ 0)
    (h : toolReadySignals env options toolCallId toolName input providerExecuted dynamic partType s.snapshot announced = some signals) :
    (signals = [] ∧ (findTool s.snapshot toolCallId).any fun tool => tool.phase = .inputRejected) ∨
    ∃ event, signals = [.protocol event] ∧ overwrittenTool event = some toolCallId := by
  unfold toolReadySignals at h
  rw [if_neg hid] at h
  dsimp only at h
  split at h
  · rename_i hrejected
    exact .inl ⟨(Option.some.inj h).symm, hrejected⟩
  · split at h
    · exact .inr ⟨_, (Option.some.inj h).symm, rfl⟩
    · obtain ⟨parsed, -, hparsed⟩ := Option.bind_eq_some_iff.mp h
      refine .inr ⟨_, (Option.some.inj hparsed).symm, ?_⟩
      cases parsed <;> rfl

variable {elapsedMs : Int} {recover : Bool}

theorem noSignalRestarts_of_none
    (h : ∀ signal ∈ signals, ∀ event, signal = .protocol event → overwrittenTool event = none) :
    NoSignalRestarts json s (signals.map fun signal => ⟨signal, elapsedMs, recover⟩) := by
  induction signals generalizing s with
  | nil => trivial
  | cons signal signals ih =>
    exact ⟨restarts_other (h signal List.mem_cons_self), fun _ _ => ih fun other hother => h other (List.mem_cons_of_mem _ hother)⟩

theorem noSignalRestarts_terminal (hterm : s.terminal = true) :
    NoSignalRestarts json s (signals.map fun signal => ⟨signal, elapsedMs, recover⟩) := by
  induction signals generalizing s with
  | nil => trivial
  | cons signal signals ih =>
    refine ⟨?_, fun d hd => ih ?_⟩
    · show restarts s signal = false
      cases signal with
      | protocol event => rw [restarts, hterm, Bool.not_true, Bool.false_and]
      | _ => rfl
    · rw [reduceStreamSignal_terminal hterm] at hd
      rw [← Option.some.inj hd]
      exact hterm

theorem noSignalRestarts_event
    (h : ∀ id, overwrittenTool event = some id → finishedTool s.tools id = false) :
    NoSignalRestarts json s ([StreamSignal.protocol event].map fun signal => ⟨signal, elapsedMs, recover⟩) :=
  noSignalRestarts_single (restarts_unfinished h)

theorem noSignalRestarts_other {signal : StreamSignal} (h : ∀ event, signal ≠ .protocol event) :
    NoSignalRestarts json s ([signal].map fun signal => ⟨signal, elapsedMs, recover⟩) :=
  noSignalRestarts_single (restarts_other fun event heq => absurd heq (h event))

theorem noSignalRestarts_result {isToolError : Bool} {part : ToolResultPart}
    (hfind : ∀ id, findTool s.snapshot id = s.tools.get? id) :
    NoSignalRestarts env.json s ((providerToolTerminalSignals env options isToolError part s.snapshot).map
      fun signal => ⟨signal, elapsedMs, recover⟩) := by
  unfold providerToolTerminalSignals
  dsimp only
  split
  · trivial
  · rename_i hlive
    have hunfinished : finishedTool s.tools part.toolCallId = false := by
      refine Bool.eq_false_iff.mpr fun hdone => hlive ?_
      obtain ⟨tool, htool, hphase⟩ := finishedTool_iff.mp hdone
      rw [hfind, htool, Option.any_some, hphase, Bool.or_true]
    split
    · exact noSignalRestarts_event nofun
    · split
      · refine noSignalRestarts_of_none fun signal hsignal event heq => ?_
        simp only [List.mem_cons, List.not_mem_nil, or_false] at hsignal
        rcases hsignal with rfl | rfl <;> cases heq <;> rfl
      · refine ⟨restarts_unfinished fun id hid => by rw [← Option.some.inj hid]; exact hunfinished, fun d hd => ?_⟩
        refine ⟨restarts_unfinished fun id hid => ?_, fun e he => ?_⟩
        · rw [tools_reduceStreamSignal hd, ← Option.some.inj hid]
          unfold signalTools
          split
          · exact hunfinished
          · show finishedTool (s.tools.set part.toolCallId _) part.toolCallId = false
            rw [finishedTool, OrdMap.get?_set, if_pos rfl]
            rfl
        · refine noSignalRestarts_of_none fun signal hsignal event heq => ?_
          simp only [List.mem_cons, List.not_mem_nil, or_false] at hsignal
          rcases hsignal with rfl | rfl | rfl <;> cases heq <;> rfl

theorem noSignalRestarts_part {part : RuntimeStreamPart} (hinv : PartInv prior s)
    (hno : restartsFinishedTool s part = false) (hdecode : decodeRuntimeStreamPart env options part s.snapshot = some signals) :
    NoSignalRestarts env.json s (signals.map fun signal => ⟨signal, elapsedMs, recover⟩) := by
  have hfind : ∀ id, findTool s.snapshot id = s.tools.get? id := findTool_eq hinv.synced hinv.toolsOk
  by_cases hterm : s.terminal = true
  · exact noSignalRestarts_terminal hterm
  have hstarted : ∀ id, restartedTool part = some id → finishedTool s.tools id = false := by
    intro id hid
    rw [restartsFinishedTool, Bool.eq_false_iff.mpr hterm, Bool.not_false, Bool.true_and, hid, Option.any_some, hfind] at hno
    exact hno
  have hready : ∀ {toolCallId toolName partType : JsText} {input : JsValue} {providerExecuted dynamic announced : Option Bool},
      restartedTool part = (if toolCallId.length = 0 then none else some toolCallId) →
      toolReadySignals env options toolCallId toolName input providerExecuted dynamic partType s.snapshot announced = some signals →
      NoSignalRestarts env.json s (signals.map fun signal => ⟨signal, elapsedMs, recover⟩) := by
    intro toolCallId toolName partType input providerExecuted dynamic announced hpart hsignals
    by_cases hid : toolCallId.length = 0
    · unfold toolReadySignals at hsignals
      rw [if_pos hid] at hsignals
      rw [← Option.some.inj hsignals]
      exact noSignalRestarts_other nofun
    · rw [if_neg hid] at hpart
      rcases toolReadySignals_cases hid hsignals with ⟨rfl, -⟩ | ⟨event, rfl, hover⟩
      · trivial
      · exact noSignalRestarts_event fun id hid => hstarted id (hpart.trans (hover.symm.trans hid))
  cases part with
  | toolInputStart id toolName providerExecuted dynamic =>
    rw [← Option.some.inj hdecode]
    unfold toolStartSignal
    split <;> exact noSignalRestarts_event hstarted
  | toolInputDelta id delta =>
    rw [← Option.some.inj hdecode]
    unfold toolDeltaSignals
    split
    · trivial
    · exact noSignalRestarts_event nofun
  | toolInputEnd id =>
    rw [← Option.some.inj hdecode]
    unfold toolEndSignals
    split
    · exact noSignalRestarts_other nofun
    · rename_i tool htool
      split
      · trivial
      · rename_i hphase
        have hopen : finishedTool s.tools id = false := by
          rw [finishedTool, ← hfind, htool, Option.any_some]
          revert hphase
          cases tool.phase <;> decide
        split <;> exact noSignalRestarts_event fun _ hid => by rw [← Option.some.inj hid]; exact hopen
  | toolInputAvailable toolCallId id => exact hready rfl hdecode
  | toolCall toolCallId => exact hready rfl hdecode
  | toolResult part | toolError part =>
    rw [← Option.some.inj hdecode]
    exact noSignalRestarts_result hfind
  | finish reason metadata usage =>
    rw [← Option.some.inj hdecode]
    refine noSignalRestarts_of_none fun signal hsignal event heq => ?_
    rcases List.mem_append.mp hsignal with husage | hfinish
    · obtain ⟨_, hmap⟩ := Option.mem_toList.mp husage |> Option.map_eq_some_iff.mp
      rw [← hmap.2] at heq
      cases heq
    · rw [List.mem_singleton.mp hfinish] at heq
      cases heq
      rfl
  | data name value =>
    rw [← Option.some.inj hdecode]
    split
    · trivial
    · exact noSignalRestarts_event nofun
  | textDelta | reasoningStart | reasoningDelta | reasoningEnd =>
    rw [← Option.some.inj hdecode]
    exact noSignalRestarts_event nofun
  | error | other =>
    rw [← Option.some.inj hdecode]
    exact noSignalRestarts_other nofun

theorem absorbing_part {call : PartCall} (hinv : PartInv prior s) (hno : restartsFinishedTool s call.part = false)
    (hrun : reducePart env s call = some (t, frames)) : Absorbing s.tools frames t.tools := by
  obtain ⟨signals, hdecode, hsignals⟩ := Option.bind_eq_some_iff.mp hrun
  exact absorbing_signals (noSignalRestarts_part hinv hno hdecode) hsignals

theorem toolStep_overwrites (json : JsonCodec) (tools : Tools) {id : JsText}
    (h : overwrittenTool event = some id) :
    ∃ fresh, toolStep json tools event = some (tools.set id fresh) ∧ isTerminalPhase fresh.phase = false := by
  cases event with
  | toolInputStart | toolInputReady | toolInputRejected =>
    obtain rfl := Option.some.inj h
    exact ⟨_, rfl, rfl⟩
  | _ => cases h

theorem restart_loses_result {call : PartCall} (hinv : PartInv prior s) (hrestart : restartsFinishedTool s call.part = true)
    (hrun : reducePart env s call = some (t, frames)) :
    ∃ id tool fresh, s.tools.get? id = some tool ∧ isTerminalPhase tool.phase = true ∧
      t.tools.get? id = some fresh ∧ isTerminalPhase fresh.phase = false := by
  have hfind : ∀ id, findTool s.snapshot id = s.tools.get? id := findTool_eq hinv.synced hinv.toolsOk
  rw [restartsFinishedTool, Bool.and_eq_true, Bool.not_eq_true', Option.any_eq_true] at hrestart
  obtain ⟨hterm, id, hid, hfinished⟩ := hrestart
  rw [hfind] at hfinished
  obtain ⟨tool, htool, hphase⟩ := finishedTool_iff.mp hfinished
  obtain ⟨signals, hdecode, hsignals⟩ := Option.bind_eq_some_iff.mp hrun
  have hready : ∀ {toolCallId toolName partType : JsText} {input : JsValue} {providerExecuted dynamic announced : Option Bool},
      restartedTool call.part = (if toolCallId.length = 0 then none else some toolCallId) →
      toolReadySignals env call.options toolCallId toolName input providerExecuted dynamic partType s.snapshot announced = some signals →
      ∃ event, signals = [.protocol event] ∧ overwrittenTool event = some id := by
    intro toolCallId toolName partType input providerExecuted dynamic announced hpart hsignals
    rw [hid] at hpart
    split at hpart
    · cases hpart
    · rename_i hlength
      obtain rfl := Option.some.inj hpart
      rcases toolReadySignals_cases hlength hsignals with ⟨-, hrejected⟩ | hevent
      · rw [hfind, htool, Option.any_some, decide_eq_true_eq] at hrejected
        rw [hrejected] at hphase
        cases hphase
      · exact hevent
  have hsingle : ∃ event, signals = [.protocol event] ∧ overwrittenTool event = some id := by
    cases hpart : call.part with
    | toolInputStart callId toolName providerExecuted dynamic =>
      rw [hpart] at hdecode hid
      rw [← Option.some.inj hdecode]
      unfold toolStartSignal
      split <;> exact ⟨_, rfl, hid⟩
    | toolInputAvailable toolCallId callId =>
      rw [hpart] at hdecode
      exact hready (by rw [hpart]; rfl) hdecode
    | toolCall toolCallId =>
      rw [hpart] at hdecode
      exact hready (by rw [hpart]; rfl) hdecode
    | _ =>
      rw [hpart] at hid
      cases hid
  obtain ⟨event, rfl, hover⟩ := hsingle
  obtain ⟨d, hd, rest, hrest, rfl⟩ := reduceSignals_cons.mp hsignals
  obtain ⟨rfl, rfl⟩ := Prod.mk.inj (Option.some.inj hrest)
  obtain ⟨fresh, hstep, hfresh⟩ := toolStep_overwrites env.json s.tools hover
  refine ⟨id, tool, fresh, htool, hphase, ?_, hfresh⟩
  rw [tools_reduceStreamSignal hd, signalTools, if_neg (by rw [hterm]; decide)]
  rw [hstep, Option.getD_some, OrdMap.get?_set, if_pos rfl]

end

/-! ## Every run -/

section
variable (env : AdapterEnvironment)

structure TerminalResultsAbsorbing (calls : List PartCall) : Prop where
  kept : ∀ before between, before ++ between <+: calls → ∀ state frames later rest,
    reduceParts env createInitialReducerState before = some (state, frames) →
    reduceParts env state between = some (later, rest) →
    ∀ id tool, findTool state.snapshot id = some tool → tool.providerExecuted = some true → isTerminalPhase tool.phase = true →
      ∃ tool', findTool later.snapshot id = some tool' ∧
        tool'.phase = tool.phase ∧ tool'.output = tool.output ∧ tool'.error = tool.error
  once : ∀ before, before <+: calls → ∀ state frames, reduceParts env createInitialReducerState before = some (state, frames) →
    ∀ id, (finalResults id frames).length ≤ 1

def NeverRestarts (start : StreamReducerState) (calls : List PartCall) : Prop :=
  ∀ before call, before ++ [call] <+: calls → ∀ state frames later rest,
    reduceParts env start before = some (state, frames) → reducePart env state call = some (later, rest) →
    restartsFinishedTool state call.part = false

end

section
variable {env : AdapterEnvironment} {s t : StreamReducerState} {prior frames : List StreamLifecycleFrame}

theorem NeverRestarts.drop {before after : List PartCall} (h : NeverRestarts env s (before ++ after))
    (hrun : reduceParts env s before = some (t, frames)) : NeverRestarts env t after := by
  intro front call hleft state first later rest hfront hcall
  refine h (before ++ front) call ?_ state (frames ++ first) later rest ?_ hcall
  · rw [List.append_assoc]
    exact (List.prefix_append_right_inj before).mpr hleft
  · exact reduceParts_append.mpr ⟨t, frames, hrun, first, hfront, rfl⟩

theorem NeverRestarts.take {before calls : List PartCall} (h : NeverRestarts env s calls) (hleft : before <+: calls) :
    NeverRestarts env s before := fun front call hfront => h front call (hfront.trans hleft)

theorem absorbing_parts {calls : List PartCall} (hinv : PartInv prior s) (hno : NeverRestarts env s calls)
    (hrun : reduceParts env s calls = some (t, frames)) : Absorbing s.tools frames t.tools := by
  induction calls generalizing s prior frames with
  | nil =>
    obtain ⟨rfl, rfl⟩ := Prod.mk.inj (Option.some.inj hrun)
    exact .refl
  | cons call calls ih =>
    obtain ⟨next, first, hfirst, rest, hrest, rfl⟩ := reduceParts_cons.mp hrun
    have hcall := hno [] call (List.prefix_append [call] calls) s [] next first rfl hfirst
    have honly : reduceParts env s [call] = some (next, first) :=
      reduceParts_cons.mpr ⟨next, first, hfirst, [], rfl, by rw [List.append_nil]⟩
    have hnext : NeverRestarts env next calls := hno.drop honly
    exact (absorbing_part hinv hcall hfirst).trans (ih (partInv_part hinv hfirst) hnext hrest)

/-- The ended calls of a run keep their results exactly when no part starts one of them again. -/
theorem terminal_results_absorbing_iff (env : AdapterEnvironment) (calls : List PartCall) :
    TerminalResultsAbsorbing env calls ↔ NeverRestarts env createInitialReducerState calls := by
  constructor
  · intro h before call hleft state first later rest hbefore hcall
    refine Bool.eq_false_iff.mpr fun hrestart => ?_
    have hinv := partInv_run hbefore
    have hlater := partInv_part hinv hcall
    obtain ⟨id, tool, fresh, htool, hphase, hfresh, hnot⟩ := restart_loses_result hinv hrestart hcall
    have hcall : reduceParts env state [call] = some (later, rest) :=
      reduceParts_cons.mpr ⟨later, rest, hcall, [], rfl, by rw [List.append_nil]⟩
    obtain ⟨kept, hkept, hsame, -⟩ := h.kept before [call] hleft state first later rest hbefore hcall id tool
      (by rw [findTool_eq hinv.synced hinv.toolsOk, htool]) ((hinv.toolsOk id tool htool).provider (.inl hphase)) hphase
    rw [findTool_eq hlater.synced hlater.toolsOk, hfresh] at hkept
    rw [Option.some.inj hkept, hsame, hphase] at hnot
    cases hnot
  · intro h
    refine ⟨?_, ?_⟩
    · intro before between hleft state first later rest hbefore hbetween id tool htool _ hphase
      have hinv := partInv_run hbefore
      have hlater := partInv_parts hinv hbetween
      rw [findTool_eq hinv.synced hinv.toolsOk] at htool
      have habsorbing := absorbing_parts hinv ((h.take hleft).drop hbefore) hbetween
      exact ⟨tool, by rw [findTool_eq hlater.synced hlater.toolsOk, habsorbing.kept id tool htool hphase], rfl, rfl, rfl⟩
    · intro before hleft state first hbefore id
      exact (absorbing_parts partInv_initial (h.take hleft) hbefore).once

end

/-- A call of the provider, its result, and both once more. -/
def repeatedCall : List PartCall :=
  [⟨.toolCall (js "c") (js "search") (.object []) (some true) none, ⟨none, [], []⟩, 0, false⟩,
    ⟨.toolResult { toolCallId := js "c", toolName := js "search", output := .string (js "found") }, ⟨none, [], []⟩, 1, false⟩,
    ⟨.toolCall (js "c") (js "search") (.object []) (some true) none, ⟨none, [], []⟩, 2, false⟩,
    ⟨.toolResult { toolCallId := js "c", toolName := js "search", output := .string (js "found") }, ⟨none, [], []⟩, 3, false⟩]

def plainEnvironment : AdapterEnvironment :=
  ⟨⟨fun _ => none, fun _ => some emptyObject⟩, fun _ => false, fun _ => none⟩

/-- The repeated call drops the result, and the repeated result is emitted again. -/
theorem repeated_call_drops_result : ¬ TerminalResultsAbsorbing plainEnvironment repeatedCall ∧
    ((reduceParts plainEnvironment createInitialReducerState (repeatedCall.take 2)).bind fun after =>
      (findTool after.1.snapshot (js "c")).map fun tool => (tool.phase, tool.output.isSome)) = some (.succeeded, true) ∧
    ((reduceParts plainEnvironment createInitialReducerState (repeatedCall.take 3)).bind fun after =>
      (findTool after.1.snapshot (js "c")).map fun tool => (tool.phase, tool.output.isSome)) = some (.inputReady, false) := by
  refine ⟨fun h => ?_, rfl, rfl⟩
  have hlength : (reduceParts plainEnvironment createInitialReducerState repeatedCall).map
      (fun after => (finalResults (js "c") after.2).length) = some 2 := rfl
  obtain ⟨⟨state, frames⟩, hrun, htwo⟩ := Option.map_eq_some_iff.mp hlength
  have honce := h.once repeatedCall (List.prefix_refl _) state frames hrun (js "c")
  rw [htwo] at honce
  exact absurd honce (by decide)

end Veryfront.Agent.Streaming
