import Mathlib.Data.List.DropRight
import Veryfront.Agent.Streaming.InputLog
import Veryfront.Agent.Streaming.StreamOutcome

/-!
# Handing off tool calls

A step that ends with tool calls, or the deadline of a local tool, commits the inputs that are
complete. What is executed is the text of a call, what was announced is a value; both come from the
same streamed text by different ways.
-/

namespace Veryfront.Agent.Streaming

open Veryfront.Lib

/-! ## The merge of a final input -/

/-- A final empty object does not replace a text that starts an object, unless that object is closed twice. -/
def keepsStreamed (json : JsonCodec) (streamed text : JsText) : Bool :=
  streamed ≠ [] && trim text = emptyObject && [openBrace].isPrefixOf (trim streamed) && !isDoubleClosedObject json streamed

theorem trim_trim (text : JsText) : trim (trim text) = trim text := by
  have hstart : trimStart (trim text) = trim text := by
    refine List.dropWhile_eq_self_iff.mpr fun hpos hhead => ?_
    have hleft : trim text <+: trimStart text := List.rdropWhile_prefix isTrimmed (trimStart text)
    have hlength : 0 < (trimStart text).length := Nat.lt_of_lt_of_le hpos hleft.length_le
    refine List.dropWhile_get_zero_not isTrimmed text hlength ?_
    have hfirst : (trim text)[0] = (trimStart text)[0] := hleft.getElem hpos
    rw [hfirst] at hhead
    exact hhead
  rw [trim, hstart]
  exact List.rdropWhile_idempotent isTrimmed (trimStart text)

theorem stripRounds_other {text : JsText} (h : emptyObject.isPrefixOf text = false) (rounds : Nat) :
    stripRounds rounds text = text := by
  cases rounds with
  | zero => rfl
  | succ rounds => rw [stripRounds, if_neg (by rw [h]; decide)]

section
variable {json : JsonCodec}

theorem mergeToolCallInput_eq (streamed text : JsText) :
    mergeToolCallInput json streamed text = if keepsStreamed json streamed text then streamed else text := by
  unfold mergeToolCallInput keepsStreamed
  by_cases hempty : streamed = []
  · simp [hempty]
  · rw [if_neg hempty]
    by_cases htext : trim text = emptyObject
    · cases hopen : [openBrace].isPrefixOf (trim streamed) with
      | true => cases hclosed : isDoubleClosedObject json streamed <;> simp [hempty, htext]
      | false =>
        have hplain : stripLeadingEmptyObjectPlaceholder streamed = trim streamed := by
          refine stripRounds_other ?_ _
          cases htrim : trim streamed with
          | nil => rfl
          | cons u rest =>
            rw [htrim] at hopen
            simp only [List.isPrefixOf, Bool.and_true] at hopen
            simp [emptyObject, List.isPrefixOf, hopen]
        simp [hempty, htext, hopen, hplain, trim_trim]
    · simp [htext]

/-! ## Inputs that agree -/

def InputAgrees (json : JsonCodec) (streamed : JsText) (value : JsValue) : Prop :=
  match serializeToolInput json value with
  | none => parseToolInputText json (if streamed.length > 0 then streamed else js "null") = .ok value
  | some text => parseToolInputText json (if keepsStreamed json streamed text then streamed else text) = .ok value

theorem parse_finalInputText {prior : Option StreamToolSnapshot} {value : JsValue}
    (h : InputAgrees json ((prior.map StreamToolSnapshot.inputText).getD []) value) :
    parseToolInputText json (finalInputText json prior value) = .ok value := by
  unfold InputAgrees at h
  unfold finalInputText
  dsimp only
  cases htext : serializeToolInput json value with
  | none =>
    rw [htext] at h
    exact h
  | some text =>
    rw [htext] at h
    dsimp only
    rw [mergeToolCallInput_eq]
    exact h

/-- The text of every call that can be handed off parses to the value that was announced for it. -/
def ReadyAgrees (json : JsonCodec) (tools : Tools) : Prop :=
  ∀ id tool, tools.get? id = some tool → isReadyLocal tool = true →
    ∃ value, tool.input = some value ∧ parseToolInputText json tool.inputText = .ok value

def EventAgrees (json : JsonCodec) (tools : Tools) : StreamProtocolEvent → Prop
  | .toolInputReady id _ value providerExecuted _ _ =>
    providerExecuted ≠ some true → InputAgrees json (((tools.get? id).map StreamToolSnapshot.inputText).getD []) value
  | _ => True

theorem readyAgrees_set {tools : Tools} {id : JsText} {tool : StreamToolSnapshot} (h : ReadyAgrees json tools)
    (htool : isReadyLocal tool = true → ∃ value, tool.input = some value ∧ parseToolInputText json tool.inputText = .ok value) :
    ReadyAgrees json (tools.set id tool) := by
  intro k other hk hready
  rw [OrdMap.get?_set] at hk
  split at hk
  · obtain rfl := Option.some.inj hk
    exact htool hready
  · exact h k other hk hready

theorem readyAgrees_changeTool {tools next : Tools} {id : JsText} {allowed : StreamToolSnapshot → Bool}
    {change : StreamToolSnapshot → StreamToolSnapshot} (h : ReadyAgrees json tools)
    (hchange : ∀ tool, allowed tool = true → isReadyLocal (change tool) = false)
    (hnext : changeTool tools id allowed change = some next) : ReadyAgrees json next := by
  unfold changeTool at hnext
  split at hnext
  · cases hnext
  · rename_i tool htool
    split at hnext
    · rename_i hallowed
      obtain rfl := Option.some.inj hnext
      refine readyAgrees_set h fun hready => ?_
      rw [hchange tool hallowed] at hready
      cases hready
    · cases hnext

theorem readyAgrees_committed {tools : Tools} (h : ReadyAgrees json tools) : ReadyAgrees json (committedTools json tools) := by
  intro id tool hget hready
  rw [committedTools, OrdMap.get?_mapValues, Option.map_eq_some_iff] at hget
  obtain ⟨prior, hprior, rfl⟩ := hget
  split at hready
  · rename_i hpending
    rw [if_pos hpending]
    unfold settledTool at hready ⊢
    cases hsettled : settledInput json prior with
    | error reason =>
      rw [hsettled] at hready
      cases hready
    | ok value =>
      refine ⟨value, rfl, ?_⟩
      unfold settledInput at hsettled
      split at hsettled
      · cases hsettled
      · exact hsettled
  · rename_i hpending
    rw [if_neg hpending]
    exact h id prior hprior hready

theorem readyAgrees_step {tools next : Tools} {event : StreamProtocolEvent} (h : ReadyAgrees json tools)
    (hevent : EventAgrees json tools event) (hnext : toolStep json tools event = some next) : ReadyAgrees json next := by
  cases event with
  | toolInputStart | toolInputRejected =>
    obtain rfl := Option.some.inj hnext
    exact readyAgrees_set h nofun
  | toolInputReady id name value providerExecuted =>
    obtain rfl := Option.some.inj hnext
    refine readyAgrees_set h fun hready => ⟨value, rfl, parse_finalInputText (hevent ?_)⟩
    rw [isReadyLocal, Bool.and_eq_true, decide_eq_true_eq, decide_eq_true_eq] at hready
    exact hready.2
  | toolInputContent | providerToolStart => exact readyAgrees_changeTool h (fun _ _ => rfl) hnext
  | providerToolResult | providerToolDenied | providerToolCancelled =>
    refine readyAgrees_changeTool h (fun tool hrunning => ?_) hnext
    rw [isProviderTool, Bool.and_eq_true, decide_eq_true_eq, decide_eq_true_eq] at hrunning
    unfold endedTool
    split
    · rw [isReadyLocal, hrunning.2]
      rfl
    · unfold terminateTool
      split <;> first | rfl | (rw [isReadyLocal, hrunning.2]; rfl)
  | stepFinish reason metadata =>
    obtain rfl := Option.some.inj hnext
    split
    · exact readyAgrees_committed h
    · exact h
  | _ =>
    obtain rfl := Option.some.inj hnext
    exact h

end

/-! ## Runs -/

/-- What holds in every state of a run, whose inputs may have agreed so far. -/
structure HandoffInv (agreed : Prop) (json : JsonCodec) (frames : List StreamLifecycleFrame) (state : StreamReducerState) : Prop where
  log : InputLog (inputEvents frames) state.tools
  clean : state.terminal = false → state.terminalError = none
  agrees : agreed → ReadyAgrees json state.tools

def SignalAgrees (json : JsonCodec) (tools : Tools) : StreamSignal → Prop
  | .protocol event => EventAgrees json tools event
  | _ => True

section
variable {agreed : Prop} {json : JsonCodec} {elapsedMs : Int} {recover : Bool}
variable {s t : StreamReducerState} {prior frames : List StreamLifecycleFrame}

theorem handoffInv_initial (agreed : Prop) (json : JsonCodec) : HandoffInv agreed json [] createInitialReducerState where
  log := inputLog_empty
  clean _ := rfl
  agrees _ _ _ h := by cases h

theorem inputEventsOf_refused {tools : Tools} {event : StreamProtocolEvent} (h : toolStep json tools event = none) :
    inputEventsOf json tools event = [] := by
  cases event <;> first | rfl | cases h

theorem handoffInv_signal {signal : StreamSignal} {d : StreamReduction} (h : HandoffInv agreed json prior s)
    (hsignal : agreed → SignalAgrees json s.tools signal) (hd : reduceStreamSignal json elapsedMs recover s signal = some d) :
    HandoffInv agreed json (prior ++ d.frames) d.state := by
  have hkept : inputEvents d.frames = [] → d.state.tools = s.tools → (d.state.terminal = false → d.state.terminalError = none) →
      HandoffInv agreed json (prior ++ d.frames) d.state := by
    intro hframes htools hclean
    refine ⟨?_, hclean, htools ▸ h.agrees⟩
    rw [inputEvents_append, hframes, List.append_nil, htools]
    exact h.log
  unfold reduceStreamSignal at hd
  dsimp only at hd
  split at hd
  · rename_i hterm
    obtain rfl := Option.some.inj hd
    exact hkept rfl rfl fun hlive => absurd (hterm.symm.trans hlive) nofun
  · rename_i hterm
    cases signal with
    | usage | providerError | diagnosticCandidate =>
      obtain rfl := Option.some.inj hd
      exact hkept rfl rfl h.clean
    | protocol event =>
      dsimp only at hd
      split at hd
      · cases hd
      · obtain rfl := Option.some.inj hd
        have houtcome : ToolOutcome event (toolStep json s.tools event) { state := s }
            (reduceProtocolEvent json elapsedMs recover event { state := s }) := outcome_reduceProtocolEvent (d := { state := s }) event
        have hevents : inputEvents (reduceProtocolEvent json elapsedMs recover event { state := s }).frames =
            inputEventsOf json s.tools event := inputEvents_reduceProtocolEvent event
        refine ⟨?_, ?_, ?_⟩
        · rw [frames_recordProgress, inputEvents_append, hevents, tools_recordProgress, houtcome.tools]
          cases hnext : toolStep json s.tools event with
          | none =>
            rw [inputEventsOf_refused hnext, List.append_nil]
            exact h.log
          | some next => exact inputLog_step h.log hnext
        · rw [terminal_recordProgress, error_recordProgress, houtcome.terminal, Bool.or_eq_false_iff, Bool.or_eq_false_iff,
            Option.isNone_eq_false_iff]
          rintro ⟨⟨hsome, hfinish⟩, hlive⟩
          rw [houtcome.error hsome hfinish]
          exact h.clean hlive
        · rw [tools_recordProgress, houtcome.tools]
          cases hnext : toolStep json s.tools event with
          | none => exact h.agrees
          | some next => exact fun hagreed => readyAgrees_step (h.agrees hagreed) (hsignal hagreed) hnext

theorem handoffInv_signals {calls : List SignalCall} (h : HandoffInv agreed json prior s)
    (hcalls : agreed → ∀ call ∈ calls, ∀ tools, SignalAgrees json tools call.signal) (hrun : reduceSignals json s calls = some (t, frames)) :
    HandoffInv agreed json (prior ++ frames) t := by
  induction calls generalizing s prior frames with
  | nil =>
    obtain ⟨rfl, rfl⟩ := Prod.mk.inj (Option.some.inj hrun)
    rw [List.append_nil]
    exact h
  | cons call calls ih =>
    obtain ⟨d, hd, rest, hrest, rfl⟩ := reduceSignals_cons.mp hrun
    rw [← List.append_assoc]
    exact ih (handoffInv_signal h (fun hagreed => hcalls hagreed call List.mem_cons_self _) hd)
      (fun hagreed c hc => hcalls hagreed c (List.mem_cons_of_mem _ hc)) hrest

end

/-! ## The inputs that parts offer -/

def finalInput (env : AdapterEnvironment) (options : RuntimeStreamProviderOptions) (toolCallId toolName : JsText)
    (input : JsValue) (providerExecuted : Option Bool) (snapshot : StreamSnapshot) : Option (JsText × JsValue) :=
  let prior := findTool snapshot toolCallId
  let streamed := (prior.map StreamToolSnapshot.inputText).getD []
  if toolCallId.length = 0 || (prior.any fun tool => tool.phase = .inputRejected) || !isToolAvailable options toolName ||
      resolveProviderExecuted options providerExecuted toolName = some true then none
  else match parseFinalInput env.json streamed input with
    | some (.ok value) => some (streamed, value)
    | _ => none

def offeredInput (env : AdapterEnvironment) (options : RuntimeStreamProviderOptions) (part : RuntimeStreamPart)
    (snapshot : StreamSnapshot) : Option (JsText × JsValue) :=
  match part with
  | .toolInputEnd id => do
    let tool ← findTool snapshot id
    if isPendingLocalInput tool then
      match parseToolInputText env.json tool.inputText with
      | .ok value => some (tool.inputText, value)
      | .error _ => none
    else none
  | .toolInputAvailable toolCallId id toolName input providerExecuted _ =>
    finalInput env options ((toolCallId.or id).getD []) toolName input providerExecuted snapshot
  | .toolCall toolCallId toolName input providerExecuted _ =>
    finalInput env options toolCallId toolName input providerExecuted snapshot
  | _ => none

/-- A value that the part offers agrees with what was streamed for its call. -/
def PartAgrees (env : AdapterEnvironment) (snapshot : StreamSnapshot) (call : PartCall) : Prop :=
  ∀ streamed value, offeredInput env call.options call.part snapshot = some (streamed, value) → InputAgrees env.json streamed value

/-- Every part of the run agrees in the state in which it comes. -/
def RunAgrees (env : AdapterEnvironment) (state : StreamReducerState) (calls : List PartCall) : Prop :=
  ∀ before call after, calls = before ++ call :: after → ∀ middle frames, reduceParts env state before = some (middle, frames) →
    PartAgrees env middle.snapshot call

section
variable {env : AdapterEnvironment} {s t : StreamReducerState} {prior frames : List StreamLifecycleFrame}

theorem toolReadySignals_agree {options : RuntimeStreamProviderOptions} {toolCallId toolName partType : JsText} {input : JsValue}
    {providerExecuted dynamic announced : Option Bool} {signals : List StreamSignal} {tools : Tools} {snapshot : StreamSnapshot}
    (hfind : findTool snapshot toolCallId = tools.get? toolCallId)
    (hagree : ∀ streamed value, finalInput env options toolCallId toolName input providerExecuted snapshot = some (streamed, value) →
      InputAgrees env.json streamed value)
    (hsignals : toolReadySignals env options toolCallId toolName input providerExecuted dynamic partType snapshot announced = some signals) :
    signals = [] ∨ ∃ signal, signals = [signal] ∧ SignalAgrees env.json tools signal := by
  unfold toolReadySignals at hsignals
  unfold finalInput at hagree
  dsimp only at hsignals hagree
  split at hsignals
  · exact .inr ⟨_, (Option.some.inj hsignals).symm, trivial⟩
  · rename_i hid
    split at hsignals
    · exact .inl (Option.some.inj hsignals).symm
    · rename_i hrejected
      split at hsignals
      · exact .inr ⟨_, (Option.some.inj hsignals).symm, trivial⟩
      · rename_i havailable
        obtain ⟨parsed, hparsed, hsome⟩ := Option.bind_eq_some_iff.mp hsignals
        refine .inr ⟨_, (Option.some.inj hsome).symm, ?_⟩
        cases parsed with
        | error reason => exact trivial
        | ok value =>
          intro hlocal
          rw [← hfind]
          refine hagree _ value ?_
          rw [if_neg (by simp [hid, hrejected, havailable, hlocal]), hparsed]

theorem toolEndSignals_agree (options : RuntimeStreamProviderOptions) {id : JsText} {tools : Tools} {snapshot : StreamSnapshot}
    (hfind : findTool snapshot id = tools.get? id)
    (hagree : ∀ streamed value, offeredInput env options (.toolInputEnd id) snapshot = some (streamed, value) →
      InputAgrees env.json streamed value) :
    toolEndSignals env.json id snapshot = [] ∨
      ∃ signal, toolEndSignals env.json id snapshot = [signal] ∧ SignalAgrees env.json tools signal := by
  unfold toolEndSignals
  unfold offeredInput at hagree
  dsimp only at hagree
  cases htool : findTool snapshot id with
  | none => exact .inr ⟨_, rfl, trivial⟩
  | some tool =>
    dsimp only
    by_cases hphase : tool.phase ≠ .inputOpen ∧ tool.phase ≠ .inputStreaming
    · exact .inl (if_pos hphase)
    · rw [if_neg hphase]
      cases hparsed : parseToolInputText env.json tool.inputText with
      | error reason => exact .inr ⟨_, rfl, trivial⟩
      | ok value =>
        refine .inr ⟨_, rfl, fun hlocal => ?_⟩
        have hpending : isPendingLocalInput tool = true := by
          have hopen := isOpenInput_iff.mpr hphase
          rw [isOpenInput] at hopen
          rw [isPendingLocalInput, hopen, Bool.and_true]
          exact decide_eq_true hlocal
        rw [← hfind, htool]
        refine hagree tool.inputText value ?_
        rw [htool]
        show (if isPendingLocalInput tool then _ else _) = _
        rw [if_pos hpending, hparsed]

theorem decode_agrees {call : PartCall} {signals : List StreamSignal} (hinv : PartInv prior s)
    (hagree : PartAgrees env s.snapshot call) (hsignals : decodeRuntimeStreamPart env call.options call.part s.snapshot = some signals) :
    (∃ signal, signals = [signal] ∧ SignalAgrees env.json s.tools signal) ∨
      ∀ signal ∈ signals, ∀ tools, SignalAgrees env.json tools signal := by
  have hfind := findTool_eq hinv.synced hinv.toolsOk
  unfold PartAgrees offeredInput at hagree
  cases hpart : call.part with
  | toolInputAvailable toolCallId id | toolCall toolCallId =>
    rw [hpart] at hsignals hagree
    rcases toolReadySignals_agree (hfind _) hagree hsignals with rfl | hsingle
    · exact .inr nofun
    · exact .inl hsingle
  | toolInputEnd id =>
    rw [hpart] at hsignals hagree
    obtain rfl := Option.some.inj hsignals
    rcases toolEndSignals_agree call.options (hfind id) hagree with hnone | hsingle
    · exact .inr (by rw [hnone]; exact nofun)
    · exact .inl hsingle
  | toolInputStart id toolName =>
    rw [hpart] at hsignals
    obtain rfl := Option.some.inj hsignals
    refine .inr fun signal hmem tools => ?_
    rw [List.mem_singleton.mp hmem, toolStartSignal]
    split <;> exact trivial
  | toolInputDelta id delta =>
    rw [hpart] at hsignals
    obtain rfl := Option.some.inj hsignals
    refine .inr fun signal hmem tools => ?_
    unfold toolDeltaSignals at hmem
    split at hmem
    · cases hmem
    · rw [List.mem_singleton.mp hmem]
      exact trivial
  | data name data =>
    rw [hpart] at hsignals
    obtain rfl := Option.some.inj hsignals
    refine .inr fun signal hmem tools => ?_
    split at hmem
    · cases hmem
    · rw [List.mem_singleton.mp hmem]
      exact trivial
  | toolResult part | toolError part =>
    rw [hpart] at hsignals
    obtain rfl := Option.some.inj hsignals
    refine .inr fun signal hmem tools => ?_
    -- the call that a result brings with it is the provider's
    unfold providerToolTerminalSignals at hmem
    dsimp only at hmem
    split at hmem
    · cases hmem
    · split at hmem
      · rw [List.mem_singleton.mp hmem]
        exact trivial
      · split at hmem
        · simp only [List.mem_cons, List.not_mem_nil, or_false] at hmem
          rcases hmem with rfl | rfl <;> exact trivial
        · simp only [List.mem_cons, List.not_mem_nil, or_false] at hmem
          rcases hmem with rfl | rfl | rfl | rfl | rfl
          · exact trivial
          · exact fun hlocal => absurd rfl hlocal
          · exact trivial
          · exact trivial
          · exact trivial
  | finish reason metadata usage =>
    rw [hpart] at hsignals
    obtain rfl := Option.some.inj hsignals
    refine .inr fun signal hmem tools => ?_
    rcases List.mem_append.mp hmem with husage | hfinish
    · obtain ⟨usage, -, rfl⟩ := Option.map_eq_some_iff.mp (Option.mem_toList.mp husage)
      exact trivial
    · rw [List.mem_singleton.mp hfinish]
      exact trivial
  | textDelta | reasoningStart | reasoningDelta | reasoningEnd | error | other =>
    rw [hpart] at hsignals
    obtain rfl := Option.some.inj hsignals
    refine .inr fun signal hmem tools => ?_
    rw [List.mem_singleton.mp hmem]
    exact trivial

theorem handoffInv_part {agreed : Prop} {call : PartCall} (h : HandoffInv agreed env.json prior s) (hinv : PartInv prior s)
    (hagree : agreed → PartAgrees env s.snapshot call) (hrun : reducePart env s call = some (t, frames)) :
    HandoffInv agreed env.json (prior ++ frames) t := by
  obtain ⟨signals, hdecode, hsignals⟩ := Option.bind_eq_some_iff.mp hrun
  by_cases hagreed : agreed
  · rcases decode_agrees hinv (hagree hagreed) hdecode with ⟨signal, rfl, hsignal⟩ | hall
    · obtain ⟨d, hd, rest, hrest, rfl⟩ := reduceSignals_cons.mp hsignals
      obtain ⟨rfl, rfl⟩ := Prod.mk.inj (Option.some.inj hrest)
      rw [List.append_nil]
      exact handoffInv_signal h (fun _ => hsignal) hd
    · refine handoffInv_signals h (fun _ signalCall hmem => ?_) hsignals
      obtain ⟨signal, hsignal, rfl⟩ := List.mem_map.mp hmem
      exact hall signal hsignal
  · exact handoffInv_signals h (fun hyes => absurd hyes hagreed) hsignals

theorem runAgrees_nil : RunAgrees env s [] := by
  intro before call after heq
  cases before <;> cases heq

theorem runAgrees_cons {call : PartCall} {calls : List PartCall} (hfirst : reducePart env s call = some (t, frames))
    (hcall : PartAgrees env s.snapshot call) (hcalls : RunAgrees env t calls) : RunAgrees env s (call :: calls) := by
  intro before other after heq middle seen hbefore
  cases before with
  | nil =>
    obtain ⟨rfl, -⟩ := List.cons.inj heq
    obtain ⟨rfl, -⟩ := Prod.mk.inj (Option.some.inj hbefore)
    exact hcall
  | cons first before =>
    obtain ⟨rfl, hrest⟩ := List.cons.inj heq
    obtain ⟨next, front, hnext, rest, hbefore, -⟩ := reduceParts_cons.mp hbefore
    obtain ⟨rfl, -⟩ := Prod.mk.inj (Option.some.inj (hfirst.symm.trans hnext))
    exact hcalls before other after hrest middle rest hbefore

theorem handoffInv_parts {agreed : Prop} {calls : List PartCall} (h : HandoffInv agreed env.json prior s) (hinv : PartInv prior s)
    (hagree : agreed → RunAgrees env s calls) (hrun : reduceParts env s calls = some (t, frames)) :
    HandoffInv agreed env.json (prior ++ frames) t := by
  induction calls generalizing s prior frames with
  | nil =>
    obtain ⟨rfl, rfl⟩ := Prod.mk.inj (Option.some.inj hrun)
    rw [List.append_nil]
    exact h
  | cons call calls ih =>
    obtain ⟨next, first, hfirst, rest, hrest, rfl⟩ := reduceParts_cons.mp hrun
    have hcall (hagreed : agreed) : PartAgrees env s.snapshot call := hagree hagreed [] call calls rfl s [] rfl
    have hlater (hagreed : agreed) : RunAgrees env next calls := by
      intro before later after heq middle frames hbefore
      refine hagree hagreed (call :: before) later after (congrArg (call :: ·) heq) middle (first ++ frames) ?_
      exact reduceParts_cons.mpr ⟨next, first, hfirst, frames, hbefore, rfl⟩
    rw [← List.append_assoc]
    exact ih (handoffInv_part h hinv hcall hfirst) (partInv_part hinv hfirst) hlater hrest

end

/-! ## Endings -/

inductive HandoffEnd
  | stepFinish (providerMetadata : Option JsValue) (totalUsage : Option RuntimeUsage) (options : RuntimeStreamProviderOptions)
      (elapsedMs : Int) (recoverUnavailableToolCalls : Bool)
  | deadline (elapsedMs : Int)

def HandoffEnd.recovers : HandoffEnd → Bool
  | .stepFinish _ _ _ _ recoverUnavailableToolCalls => recoverUnavailableToolCalls
  | .deadline _ => false

def endHandoff (env : AdapterEnvironment) (state : StreamReducerState) :
    HandoffEnd → Option (StreamReducerState × List StreamLifecycleFrame × StreamOutcome)
  | .stepFinish providerMetadata totalUsage options elapsedMs recoverUnavailableToolCalls => do
    let (next, frames) ← reducePart env state
      ⟨.finish (some (js "tool-calls")) providerMetadata totalUsage, options, elapsedMs, recoverUnavailableToolCalls⟩
    some (next, frames, settleReducerTerminal next elapsedMs)
  | .deadline elapsedMs =>
    let resolution := resolveLocalToolDeadline env.json elapsedMs state
    some (resolution.reduction.state, resolution.reduction.frames, settleLocalToolDeadline resolution elapsedMs)

structure HandsOffCompleteCalls (recovers : Bool) (frames : List StreamLifecycleFrame) (snapshot : StreamSnapshot)
    (outcome : StreamOutcome) : Prop where
  settled : ∀ tool ∈ snapshot.tools, isPendingLocalInput tool = false
  handsOff : outcome.isToolHandoff = true ↔ (∃ tool ∈ snapshot.tools, isReadyLocal tool = true) ∨
    (recovers = true ∧ (∃ tool ∈ snapshot.tools, tool.phase = .inputRejected) ∧
      ∀ tool ∈ snapshot.tools, tool.phase = .inputRejected → tool.rejectionReason = some .unavailable)
  calls : outcome.committedCalls.map StreamCommittedToolCall.id =
    (seenCalls frames).filter fun id => (findTool snapshot id).any isReadyLocal
  own : ∀ call ∈ outcome.committedCalls, ∃ tool, findTool snapshot call.id = some tool ∧ isReadyLocal tool = true ∧
    call = ⟨tool.id, tool.name, tool.inputText, tool.inputDeltas, tool.dynamic⟩

/-- Each call that is handed off has a text that says what was announced last. -/
structure CommitsCompleteCalls (json : JsonCodec) (recovers : Bool) (frames : List StreamLifecycleFrame)
    (snapshot : StreamSnapshot) (outcome : StreamOutcome) : Prop extends HandsOffCompleteCalls recovers frames snapshot outcome where
  agrees : ∀ call ∈ outcome.committedCalls, ∃ value,
    parseCanonicalToolInput json (.string call.arguments) = .ok value ∧ lastReadyInput call.id frames = some value

/-- The decision of the reducer, and what the classifier makes of it. -/
def handsOff (recovers : Bool) (tools : List StreamToolSnapshot) : Bool :=
  (readyLocal tools).length > 0 || isUnavailableRecovery recovers tools

structure SettlesHandoff (recovers : Bool) (snapshot : StreamSnapshot) (outcome : StreamOutcome) : Prop where
  handoff : outcome.isToolHandoff = handsOff recovers snapshot.tools
  committed : outcome.committedCalls =
    if handsOff recovers snapshot.tools then collectCommittedLocalToolCalls snapshot else []

section
variable {env : AdapterEnvironment} {json : JsonCodec} {elapsedMs : Int} {recovers : Bool}
variable {s t : StreamReducerState} {prior frames : List StreamLifecycleFrame}

theorem handsOff_iff {tools : Tools} {events : List StreamProtocolEvent} (hlog : InputLog events tools) :
    handsOff recovers tools.values = true ↔ (∃ tool ∈ tools.values, isReadyLocal tool = true) ∨
      (recovers = true ∧ (∃ tool ∈ tools.values, tool.phase = .inputRejected) ∧
        ∀ tool ∈ tools.values, tool.phase = .inputRejected → tool.rejectionReason = some .unavailable) := by
  have hrejected : rejectedLocal tools.values = tools.values.filter fun tool => tool.phase = .inputRejected := by
    refine List.filter_congr fun tool hmem => ?_
    obtain ⟨id, hget⟩ := (OrdMap.mem_values ..).mp hmem
    by_cases hphase : tool.phase = .inputRejected
    · simp [hphase, hlog.rejected id tool hget hphase]
    · simp [hphase]
  have hready : (readyLocal tools.values).length > 0 ↔ ∃ tool ∈ tools.values, isReadyLocal tool = true := by
    rw [gt_iff_lt, List.length_pos_iff_exists_mem]
    exact exists_congr fun tool => List.mem_filter
  rw [handsOff, Bool.or_eq_true, decide_eq_true_eq, hready, isUnavailableRecovery, hrejected]
  refine or_congr_right ?_
  simp [List.filter_eq_nil_iff, and_assoc]

theorem commits_of_settles {agreed : Prop} {outcome : StreamOutcome} (hinv : HandoffInv agreed json frames t) (hsynced : Synced t) (hok : ToolsOk t.tools)
    (hsettled : ∀ tool ∈ t.tools.values, isPendingLocalInput tool = false) (h : SettlesHandoff recovers t.snapshot outcome) :
    HandsOffCompleteCalls recovers frames t.snapshot outcome ∧ (agreed → CommitsCompleteCalls json recovers frames t.snapshot outcome) := by
  have hfind := findTool_eq hsynced hok
  have hsync : t.snapshot.tools = t.tools.values := hsynced
  have hnone : handsOff recovers t.snapshot.tools = false → t.tools.values.filter isReadyLocal = [] := by
    intro hno
    refine List.filter_eq_nil_iff.mpr fun tool hmem hready => ?_
    rw [hsync, Bool.eq_false_iff, ne_eq, handsOff_iff hinv.log] at hno
    exact hno (.inl ⟨tool, hmem, hready⟩)
  have hcommitted : outcome.committedCalls = collectCommittedLocalToolCalls t.snapshot := by
    rw [h.committed]
    split
    · rfl
    · rename_i hno
      rw [collectCommittedLocalToolCalls, hsync, hnone (Bool.eq_false_iff.mpr hno)]
      rfl
  have hown : ∀ call ∈ outcome.committedCalls, ∃ tool, t.tools.get? call.id = some tool ∧ isReadyLocal tool = true ∧
      call = ⟨tool.id, tool.name, tool.inputText, tool.inputDeltas, tool.dynamic⟩ := by
    intro call hcall
    rw [hcommitted, collectCommittedLocalToolCalls, hsync] at hcall
    obtain ⟨tool, hmem, rfl⟩ := List.mem_map.mp hcall
    obtain ⟨hvalue, hready⟩ := List.mem_filter.mp hmem
    obtain ⟨id, hget⟩ := (OrdMap.mem_values ..).mp hvalue
    have hkeyed := (hok id tool hget).keyed
    exact ⟨tool, hkeyed ▸ hget, hready, rfl⟩
  have hhands : HandsOffCompleteCalls recovers frames t.snapshot outcome := by
    refine ⟨hsync ▸ hsettled, ?_, ?_, fun call hcall => by rw [hfind]; exact hown call hcall⟩
    · rw [h.handoff, hsync]
      exact handsOff_iff hinv.log
    · rw [hcommitted, collectCommittedLocalToolCalls, hsync, seenCalls_eq, ← hinv.log.seen]
      simp only [hfind]
      rw [OrdMap.filter_keys, OrdMap.values, List.filter_map, List.map_map, List.map_map]
      refine List.map_congr_left fun entry hentry => ?_
      exact (hok entry.1 entry.2 ((OrdMap.get?_eq_some ..).mpr (List.mem_filter.mp hentry).1)).keyed
  refine ⟨hhands, fun hagreed => ⟨hhands, fun call hcall => ?_⟩⟩
  obtain ⟨tool, hget, hready, heq⟩ := hown call hcall
  obtain ⟨value, hinput, hparse⟩ := hinv.agrees hagreed call.id tool hget hready
  have hphase : tool.phase = .inputReady := by
    rw [isReadyLocal, Bool.and_eq_true, decide_eq_true_eq] at hready
    exact hready.1
  obtain ⟨announced, hannounced, hlast⟩ := hinv.log.ready call.id tool hget hphase
  obtain rfl := Option.some.inj (hinput.symm.trans hannounced)
  refine ⟨value, ?_, by rw [lastReadyInput_eq]; exact hlast⟩
  rw [show call.arguments = tool.inputText by rw [heq]]
  exact hparse

theorem no_pending_committed (tools : Tools) : ∀ tool ∈ (committedTools json tools).values, isPendingLocalInput tool = false := by
  intro tool hmem
  obtain ⟨id, hget⟩ := (OrdMap.mem_values ..).mp hmem
  rw [committedTools, OrdMap.get?_mapValues, Option.map_eq_some_iff] at hget
  obtain ⟨prior, -, rfl⟩ := hget
  split
  · unfold settledTool
    split <;> exact Bool.and_false _
  · rename_i hpending
    exact Bool.eq_false_iff.mpr hpending

theorem settles_of_phase {state : StreamReducerState}
    (hyes : handsOff recovers state.snapshot.tools = true → state.snapshot.phase = .toolHandoff ∧ state.terminalError = none)
    (hno : handsOff recovers state.snapshot.tools = false → state.terminalError.isSome = true) :
    SettlesHandoff recovers state.snapshot (settleReducerTerminal state elapsedMs) := by
  cases hdecided : handsOff recovers state.snapshot.tools with
  | true =>
    obtain ⟨hphase, herror⟩ := hyes hdecided
    have hsettle : settleReducerTerminal state elapsedMs =
        .toolHandoff (collectCommittedLocalToolCalls state.snapshot) { state.snapshot with phase := .toolHandoff } elapsedMs := by
      simp only [settleReducerTerminal, resolveStreamOutcome, herror, resolveSnapshot, hphase]
    rw [hsettle]
    exact ⟨hdecided.symm, by rw [hdecided]; rfl⟩
  | false =>
    obtain ⟨error, herror⟩ := Option.isSome_iff_exists.mp (hno hdecided)
    have hsettle : settleReducerTerminal state elapsedMs = .failed { error } { state.snapshot with phase := .failed } elapsedMs := by
      simp only [settleReducerTerminal, resolveStreamOutcome, herror]
    rw [hsettle]
    exact ⟨hdecided.symm, by rw [hdecided]; rfl⟩

theorem finishStep_decides (json : JsonCodec) (elapsedMs : Int) (recovers : Bool) (metadata : Option JsValue) (d : StreamReduction) :
    let state := (finishStep json elapsedMs recovers (some .toolCalls) metadata d).state
    if handsOff recovers state.tools.values then
      state.snapshot.phase = .toolHandoff ∧ state.terminalError = d.state.terminalError
    else state.terminalError.isSome = true := by
  have hclosed : SetsTools d d.state.tools (d.closeOpenContent elapsedMs) := sets_closeOpenContent
  have hcommitted : SetsTools d _ (commitPendingLocalInputs json elapsedMs (d.closeOpenContent elapsedMs)) :=
    hclosed.trans sets_commitPendingLocalInputs
  have herror := hcommitted.error
  unfold finishStep
  dsimp only
  rw [if_pos rfl]
  generalize commitPendingLocalInputs json elapsedMs (d.closeOpenContent elapsedMs) = e at herror
  simp only [StreamReduction.emit, true_and]
  have hdecided : ((readyLocal e.state.tools.values).length > 0 ∨ isUnavailableRecovery recovers e.state.tools.values = true) ↔
      handsOff recovers e.state.tools.values = true := by
    rw [handsOff, Bool.or_eq_true, decide_eq_true_eq]
  cases hyes : handsOff recovers e.state.tools.values with
  | true => simp [hdecided.mpr hyes, herror]
  | false =>
    obtain ⟨hready, hrecovery⟩ := not_or.mp fun h => Bool.eq_false_iff.mp hyes (hdecided.mp h)
    have hempty : readyLocal e.state.tools.values = [] := by simpa using hready
    simp [hempty, hrecovery]

theorem snapshot_recordProgress (d : StreamReduction) : (recordProgress d).state.snapshot.phase = d.state.snapshot.phase ∧
    (recordProgress d).state.snapshot.tools = d.state.snapshot.tools := by
  unfold recordProgress
  split <;> exact ⟨rfl, rfl⟩

theorem settles_stepFinish {metadata : Option JsValue} {d : StreamReduction} (hlive : s.terminal = false)
    (hclean : s.terminalError = none) (hsync : Synced d.state)
    (hd : reduceStreamSignal json elapsedMs recovers s (.protocol (.stepFinish (some .toolCalls) metadata)) = some d) :
    d.state.tools = committedTools json s.tools ∧
      SettlesHandoff recovers d.state.snapshot (settleReducerTerminal d.state elapsedMs) := by
  refine ⟨?_, ?_⟩
  · rw [tools_reduceStreamSignal hd, signalTools, if_neg (by rw [hlive]; decide)]
    rfl
  · have hdone : d = recordProgress (finishStep json elapsedMs recovers (some .toolCalls) metadata { state := s }) := by
      unfold reduceStreamSignal at hd
      rw [if_neg (by rw [hlive]; decide)] at hd
      exact (Option.some.inj hd).symm
    have hdecides := finishStep_decides json elapsedMs recovers metadata { state := s }
    dsimp only at hdecides
    rw [← tools_recordProgress, ← (snapshot_recordProgress _).1, ← error_recordProgress, ← hdone, ← hsync] at hdecides
    refine settles_of_phase (fun hyes => ?_) fun hno => ?_
    · rw [if_pos hyes] at hdecides
      exact ⟨hdecides.1, hdecides.2.trans hclean⟩
    · rw [if_neg (Bool.eq_false_iff.mp hno)] at hdecides
      exact hdecides

theorem settles_finish {metadata : Option JsValue} {usage : Option RuntimeUsage} {options : RuntimeStreamProviderOptions}
    (hlive : s.terminal = false) (hclean : s.terminalError = none) (hsync : Synced t)
    (hrun : reducePart env s ⟨.finish (some (js "tool-calls")) metadata usage, options, elapsedMs, recovers⟩ = some (t, frames)) :
    t.tools = committedTools env.json s.tools ∧ SettlesHandoff recovers t.snapshot (settleReducerTerminal t elapsedMs) := by
  unfold reducePart at hrun
  obtain ⟨signals, hdecode, hsignals⟩ := Option.bind_eq_some_iff.mp hrun
  obtain rfl := Option.some.inj hdecode
  rw [show normalizeFinishReason (some (js "tool-calls")) = some .toolCalls by decide] at hsignals
  have hlast : ∀ {u : StreamReducerState} {rest : List StreamLifecycleFrame}, u.terminal = false → u.terminalError = none →
      u.tools = s.tools → reduceSignals env.json u [⟨.protocol (.stepFinish (some .toolCalls) metadata), elapsedMs, recovers⟩] =
        some (t, rest) →
      t.tools = committedTools env.json s.tools ∧ SettlesHandoff recovers t.snapshot (settleReducerTerminal t elapsedMs) := by
    intro u rest hlive hclean htools hrun
    obtain ⟨d, hd, rest, hrest, -⟩ := reduceSignals_cons.mp hrun
    obtain ⟨rfl, -⟩ := Prod.mk.inj (Option.some.inj hrest)
    rw [← htools]
    exact settles_stepFinish hlive hclean hsync hd
  cases usage with
  | none => exact hlast hlive hclean rfl hsignals
  | some usage =>
    obtain ⟨d, hd, rest, hrest, -⟩ := reduceSignals_cons.mp hsignals
    unfold reduceStreamSignal at hd
    rw [if_neg (by rw [hlive]; decide)] at hd
    obtain rfl := Option.some.inj hd
    exact hlast (by exact hlive) (by exact hclean) (by rfl) hrest

theorem toolsOk_committed {tools : Tools} (h : ToolsOk tools) : ToolsOk (committedTools json tools) := by
  have hstep : toolStep json tools (.stepFinish (some .toolCalls) none) = some (committedTools json tools) := rfl
  exact toolsOk_step h hstep

def deadlineEvent (json : JsonCodec) (entry : JsText × StreamToolSnapshot) : Option StreamProtocolEvent :=
  match settledInput json entry.2 with
  | .ok _ => commitEvent json entry
  | .error _ => if hadInput entry.2 then commitEvent json entry else none

theorem sets_settleAtDeadline (d : StreamReduction) (entry : JsText × StreamToolSnapshot) :
    SetsTools d (if isPendingLocalInput entry.2 then d.state.tools.set entry.1 (settledTool json entry.2) else d.state.tools)
      (settleAtDeadline json elapsedMs d entry) := by
  unfold settleAtDeadline settledTool
  dsimp only
  cases isPendingLocalInput entry.2 with
  | false => exact ⟨rfl, rfl, rfl⟩
  | true =>
    cases settledInput json entry.2 with
    | ok value => exact ⟨rfl, rfl, rfl⟩
    | error reason => cases hadInput entry.2 <;> exact ⟨rfl, rfl, rfl⟩

theorem inputEvents_settleAtDeadline (d : StreamReduction) (entry : JsText × StreamToolSnapshot) :
    inputEvents (settleAtDeadline json elapsedMs d entry).frames = inputEvents d.frames ++ (deadlineEvent json entry).toList := by
  unfold settleAtDeadline deadlineEvent commitEvent
  dsimp only
  cases isPendingLocalInput entry.2 with
  | false =>
    cases settledInput json entry.2 with
    | ok value => exact (List.append_nil _).symm
    | error reason => cases hadInput entry.2 <;> exact (List.append_nil _).symm
  | true =>
    cases settledInput json entry.2 with
    | ok value => exact inputEvents_append ..
    | error reason =>
      cases hadInput entry.2 with
      | true => exact inputEvents_append ..
      | false => exact (List.append_nil _).symm

theorem inputLog_deadline {events : List StreamProtocolEvent} {tools : Tools} (h : InputLog events tools) :
    InputLog (events ++ tools.entries.filterMap (deadlineEvent json)) (committedTools json tools) := by
  refine inputLog_committed h (fun entry event hevent => ?_) fun entry => ?_
  · unfold deadlineEvent at hevent
    split at hevent
    · exact inputId_commitEvent hevent
    · split at hevent
      · exact inputId_commitEvent hevent
      · cases hevent
  · unfold deadlineEvent commitEvent
    cases hsettled : settledInput json entry.2 with
    | ok value => rfl
    | error reason =>
      cases hadInput entry.2 with
      | true => rfl
      | false => cases isPendingLocalInput entry.2 <;> rfl

theorem settles_deadline (hclean : s.terminalError = none) :
    let resolution := resolveLocalToolDeadline json elapsedMs s
    let state := resolution.reduction.state
    state.tools = committedTools json s.tools ∧ Synced state ∧ state.terminal = true ∧
      inputEvents resolution.reduction.frames = s.tools.entries.filterMap (deadlineEvent json) ∧
      SettlesHandoff false state.snapshot (settleLocalToolDeadline resolution elapsedMs) := by
  have hpass : SetsTools { state := s } (committedTools json s.tools)
      (s.tools.entries.foldl (settleAtDeadline json elapsedMs) { state := s }) :=
    sets_commit_pass (fun _ => sets_settleAtDeadline _) { state := s }
  have hevents : inputEvents (s.tools.entries.foldl (settleAtDeadline json elapsedMs) { state := s }).frames =
      s.tools.entries.filterMap (deadlineEvent json) := inputEvents_pass (fun _ => inputEvents_settleAtDeadline _) _ _
  have hdecided : ∀ tools, handsOff false tools = true ↔ (readyLocal tools).length > 0 := by
    intro tools
    rw [handsOff, isUnavailableRecovery, Bool.false_and, Bool.false_and, Bool.or_false, decide_eq_true_eq]
  unfold resolveLocalToolDeadline
  dsimp only
  generalize s.tools.entries.foldl (settleAtDeadline json elapsedMs) { state := s } = d at hpass hevents
  have htools : d.state.tools = committedTools json s.tools := hpass.tools
  have herror : d.state.terminalError = none := hpass.error.trans hclean
  split
  · rename_i hready
    refine ⟨htools, rfl, rfl, hevents, ?_⟩
    refine settles_of_phase (fun _ => ⟨rfl, herror⟩) fun hno => ?_
    exact absurd ((hdecided _).mpr hready) (Bool.eq_false_iff.mp hno)
  · rename_i hready
    refine ⟨htools, rfl, rfl, hevents, ?_⟩
    have hno : handsOff false d.state.tools.values = false := Bool.eq_false_iff.mpr fun h => hready ((hdecided _).mp h)
    exact ⟨hno.symm, (if_neg (Bool.eq_false_iff.mp hno)).symm⟩

end

/-- An ending hands off exactly the complete local calls. They say what was announced when every part offers an input that
agrees with what was streamed for it. -/
theorem handoff_commits_complete_calls (env : AdapterEnvironment) (calls : List PartCall) (ending : HandoffEnd)
    {state last : StreamReducerState} {frames rest : List StreamLifecycleFrame} {outcome : StreamOutcome}
    (hrun : reduceParts env createInitialReducerState calls = some (state, frames)) (hlive : state.terminal = false)
    (hend : endHandoff env state ending = some (last, rest, outcome)) :
    HandsOffCompleteCalls ending.recovers (frames ++ rest) last.snapshot outcome ∧
      (RunAgrees env createInitialReducerState calls →
        CommitsCompleteCalls env.json ending.recovers (frames ++ rest) last.snapshot outcome) := by
  have hpart := partInv_run hrun
  have hinv : HandoffInv (RunAgrees env createInitialReducerState calls) env.json frames state :=
    handoffInv_parts (handoffInv_initial _ env.json) partInv_initial id hrun
  have hclean := hinv.clean hlive
  cases ending with
  | stepFinish metadata usage options elapsedMs recovers =>
    obtain ⟨⟨next, first⟩, hfinish, hlast⟩ := Option.bind_eq_some_iff.mp hend
    have heq : (next, first, settleReducerTerminal next elapsedMs) = (last, rest, outcome) := Option.some.inj hlast
    simp only [Prod.mk.injEq] at heq
    obtain ⟨rfl, rfl, rfl⟩ := heq
    have hnext := partInv_part hpart hfinish
    have hinvnext := handoffInv_part hinv hpart (fun _ _ _ hoffered => by cases hoffered) hfinish
    obtain ⟨htools, hsettles⟩ := settles_finish hlive hclean hnext.synced hfinish
    exact commits_of_settles hinvnext hnext.synced hnext.toolsOk (htools ▸ no_pending_committed state.tools) hsettles
  | deadline elapsedMs =>
    obtain ⟨rfl, hlast⟩ := Prod.mk.inj (Option.some.inj hend)
    obtain ⟨rfl, rfl⟩ := Prod.mk.inj hlast
    obtain ⟨htools, hsynced, hterm, hevents, hsettles⟩ := settles_deadline hclean
    refine commits_of_settles ⟨?_, fun h => ?_, ?_⟩ hsynced ?_ ?_ hsettles
    · rw [inputEvents_append, hevents, htools]
      exact inputLog_deadline hinv.log
    · rw [hterm] at h
      cases h
    · rw [htools]
      exact fun hagreed => readyAgrees_committed (hinv.agrees hagreed)
    · rw [htools]
      exact toolsOk_committed hpart.toolsOk
    · rw [htools]
      exact no_pending_committed state.tools

def oneField : JsValue := .object [(js "a", .number "1")]

def oneFieldText : JsText := openBrace :: js "\"a\":1" ++ [closeBrace]

def oneFieldEnvironment : AdapterEnvironment where
  json :=
    { parse := fun text =>
        if text = emptyObject then some (.object []) else if text = oneFieldText then some oneField else none
      stringify := fun
        | .object [] => some emptyObject
        | _ => some oneFieldText }
  isDynamicTool _ := false
  resolveKnownProviderTerminalError _ := none

def streamedCall : List PartCall :=
  [⟨.toolInputStart (js "c") (js "search") none none, ⟨none, [], []⟩, 0, false⟩,
    ⟨.toolInputDelta (js "c") oneFieldText, ⟨none, [], []⟩, 1, false⟩,
    ⟨.toolInputEnd (js "c"), ⟨none, [], []⟩, 2, false⟩]

/-- A call whose input is streamed, and then given once more as an empty object. -/
def replacedCall : List PartCall :=
  streamedCall.take 2 ++ [⟨.toolCall (js "c") (js "search") (.object []) none none, ⟨none, [], []⟩, 2, false⟩]

def stepEnd : HandoffEnd := .stepFinish none none ⟨none, [], []⟩ 3 false

theorem handoff_commits_complete_calls_streamed :
    ∃ state frames last rest outcome, reduceParts oneFieldEnvironment createInitialReducerState streamedCall = some (state, frames) ∧
      endHandoff oneFieldEnvironment state stepEnd = some (last, rest, outcome) ∧
      outcome.committedCalls.map StreamCommittedToolCall.arguments = [oneFieldText] ∧
      CommitsCompleteCalls oneFieldEnvironment.json false (frames ++ rest) last.snapshot outcome := by
  have hagree : RunAgrees oneFieldEnvironment createInitialReducerState streamedCall := by
    refine runAgrees_cons rfl (fun _ _ hoffered => by cases hoffered) (runAgrees_cons rfl (fun _ _ hoffered => by cases hoffered)
      (runAgrees_cons rfl (fun streamed value hoffered => ?_) runAgrees_nil))
    obtain ⟨rfl, rfl⟩ := Prod.mk.inj (Option.some.inj hoffered)
    rfl
  exact ⟨_, _, _, _, _, rfl, rfl, rfl,
    (handoff_commits_complete_calls oneFieldEnvironment streamedCall stepEnd rfl rfl rfl).2 hagree⟩

/-- The call is announced with the empty object, and executed with the streamed text. -/
theorem replaced_input_executed :
    ∃ state frames last rest outcome, reduceParts oneFieldEnvironment createInitialReducerState replacedCall = some (state, frames) ∧
      state.terminal = false ∧ endHandoff oneFieldEnvironment state stepEnd = some (last, rest, outcome) ∧
      outcome.committedCalls.map StreamCommittedToolCall.arguments = [oneFieldText] ∧
      lastReadyInput (js "c") (frames ++ rest) = some (.object []) ∧
      ¬ CommitsCompleteCalls oneFieldEnvironment.json false (frames ++ rest) last.snapshot outcome := by
  refine ⟨_, _, _, _, _, rfl, rfl, rfl, rfl, rfl, fun h => ?_⟩
  obtain ⟨value, hparse, hlast⟩ := h.agrees _ List.mem_cons_self
  obtain rfl := Option.some.inj hlast
  cases Except.ok.inj hparse

end Veryfront.Agent.Streaming
