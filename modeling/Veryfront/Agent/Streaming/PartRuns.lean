import Mathlib.Data.List.Find
import Veryfront.Agent.Streaming.ProviderAdapter
import Veryfront.Agent.Streaming.ToolMachine

/-!
# Runs over the parts of a provider

The driver decodes each part against the snapshot and folds the signals one after the other. What
the parts can do to the tools is read off the machine.
-/

namespace Veryfront.Agent.Streaming

open Veryfront.Lib

/-! ## Runs -/

structure PartCall where
  part : RuntimeStreamPart
  options : RuntimeStreamProviderOptions := ⟨none, [], []⟩
  elapsedMs : Int := 0
  recoverUnavailableToolCalls : Bool := false

section
variable (env : AdapterEnvironment)

/-- `none` when the decoder or the reducer throws. -/
def reducePart (state : StreamReducerState) (call : PartCall) : Option (StreamReducerState × List StreamLifecycleFrame) := do
  let signals ← decodeRuntimeStreamPart env call.options call.part state.snapshot
  reduceSignals env.json state (signals.map fun signal => ⟨signal, call.elapsedMs, call.recoverUnavailableToolCalls⟩)

def reduceParts : StreamReducerState → List PartCall → Option (StreamReducerState × List StreamLifecycleFrame)
  | state, [] => some (state, [])
  | state, call :: calls => do
    let (next, frames) ← reducePart env state call
    let (final, rest) ← reduceParts next calls
    some (final, frames ++ rest)

end

section
variable {env : AdapterEnvironment} {json : JsonCodec} {s t : StreamReducerState} {frames : List StreamLifecycleFrame}

theorem reduceSignals_cons {call : SignalCall} {calls : List SignalCall} :
    reduceSignals json s (call :: calls) = some (t, frames) ↔
      ∃ d, reduceStreamSignal json call.elapsedMs call.recoverUnavailableToolCalls s call.signal = some d ∧
        ∃ rest, reduceSignals json d.state calls = some (t, rest) ∧ frames = d.frames ++ rest := by
  simp only [reduceSignals, Option.bind_eq_bind, Option.bind_eq_some_iff]
  constructor
  · rintro ⟨d, hd, ⟨last, rest⟩, hrest, heq⟩
    obtain ⟨rfl, rfl⟩ := Prod.mk.inj (Option.some.inj heq)
    exact ⟨d, hd, rest, hrest, rfl⟩
  · rintro ⟨d, hd, rest, hrest, rfl⟩
    exact ⟨d, hd, (t, rest), hrest, rfl⟩

theorem reduceParts_cons {call : PartCall} {calls : List PartCall} :
    reduceParts env s (call :: calls) = some (t, frames) ↔
      ∃ next first, reducePart env s call = some (next, first) ∧
        ∃ rest, reduceParts env next calls = some (t, rest) ∧ frames = first ++ rest := by
  simp only [reduceParts, Option.bind_eq_bind, Option.bind_eq_some_iff]
  constructor
  · rintro ⟨⟨next, first⟩, hfirst, ⟨last, rest⟩, hrest, heq⟩
    obtain ⟨rfl, rfl⟩ := Prod.mk.inj (Option.some.inj heq)
    exact ⟨next, first, hfirst, rest, hrest, rfl⟩
  · rintro ⟨next, first, hfirst, rest, hrest, rfl⟩
    exact ⟨(next, first), hfirst, (t, rest), hrest, rfl⟩

theorem reduceParts_append {before after : List PartCall} :
    reduceParts env s (before ++ after) = some (t, frames) ↔
      ∃ next first, reduceParts env s before = some (next, first) ∧
        ∃ rest, reduceParts env next after = some (t, rest) ∧ frames = first ++ rest := by
  induction before generalizing s frames with
  | nil => simp [reduceParts]
  | cons call before ih =>
    rw [List.cons_append, reduceParts_cons]
    constructor
    · rintro ⟨next, first, hfirst, rest, hrest, rfl⟩
      obtain ⟨middle, second, hsecond, last, hlast, rfl⟩ := ih.mp hrest
      exact ⟨middle, first ++ second, reduceParts_cons.mpr ⟨next, first, hfirst, second, hsecond, rfl⟩, last, hlast, by
        rw [List.append_assoc]⟩
    · rintro ⟨middle, front, hfront, last, hlast, rfl⟩
      obtain ⟨next, first, hfirst, second, hsecond, rfl⟩ := reduceParts_cons.mp hfront
      exact ⟨next, first, hfirst, second ++ last, ih.mpr ⟨middle, second, hsecond, last, hlast, rfl⟩, by
        rw [List.append_assoc]⟩

end

/-! ## The tools of a state -/

def signalTools (json : JsonCodec) (state : StreamReducerState) (signal : StreamSignal) : Tools :=
  if state.terminal then state.tools
  else match signal with
    | .protocol event => (toolStep json state.tools event).getD state.tools
    | _ => state.tools

variable {state : StreamReducerState}

theorem tools_reduceStreamSignal {json : JsonCodec} {elapsedMs : Int} {recover : Bool}
    {signal : StreamSignal} {d : StreamReduction} (h : reduceStreamSignal json elapsedMs recover state signal = some d) :
    d.state.tools = signalTools json state signal := by
  unfold reduceStreamSignal at h
  unfold signalTools
  dsimp only at h
  split at h
  · rename_i hterm
    obtain rfl := Option.some.inj h
    rw [if_pos hterm]
    rfl
  · rename_i hterm
    rw [if_neg hterm]
    cases signal with
    | usage | providerError | diagnosticCandidate =>
      obtain rfl := Option.some.inj h
      rfl
    | protocol event =>
      dsimp only at h
      split at h
      · cases h
      · obtain rfl := Option.some.inj h
        rw [tools_recordProgress]
        exact (outcome_reduceProtocolEvent event).tools

/-- Every entry is under its own id, and only the provider's calls run and end. -/
structure ToolOk (id : JsText) (tool : StreamToolSnapshot) : Prop where
  keyed : tool.id = id
  provider : isTerminalPhase tool.phase = true ∨ tool.phase = .running → tool.providerExecuted = some true

def ToolsOk (tools : Tools) : Prop := ∀ id tool, tools.get? id = some tool → ToolOk id tool

section
variable {json : JsonCodec} {tools : Tools}

variable {tool : StreamToolSnapshot}

theorem ToolOk.early {id : JsText} (hid : tool.id = id)
    (hphase : isTerminalPhase tool.phase = false) (hrunning : tool.phase ≠ .running) : ToolOk id tool :=
  ⟨hid, fun h => (h.elim (fun h => by rw [hphase] at h; cases h) fun h => absurd h hrunning)⟩

theorem toolsOk_set {id : JsText} (h : ToolsOk tools) (ht : ToolOk id tool) :
    ToolsOk (tools.set id tool) := by
  intro k other hk
  rw [OrdMap.get?_set] at hk
  split at hk
  · rename_i heq
    rw [← Option.some.inj hk, heq]
    exact ht
  · exact h k other hk

theorem toolsOk_changeTool {id : JsText} {allowed : StreamToolSnapshot → Bool} {change : StreamToolSnapshot → StreamToolSnapshot}
    {next : Tools} (h : ToolsOk tools) (hchange : ∀ tool, allowed tool = true → ToolOk id tool → ToolOk id (change tool))
    (hnext : changeTool tools id allowed change = some next) : ToolsOk next := by
  unfold changeTool at hnext
  split at hnext
  · cases hnext
  · rename_i tool htool
    split at hnext
    · rename_i hallowed
      obtain rfl := Option.some.inj hnext
      exact toolsOk_set h (hchange tool hallowed (h id tool htool))
    · cases hnext

theorem settledTool_ok {id : JsText} (h : ToolOk id tool) : ToolOk id (settledTool json tool) := by
  unfold settledTool
  split
  · exact .early h.keyed rfl nofun
  · exact .early h.keyed rfl nofun

theorem toolsOk_step {event : StreamProtocolEvent} {next : Tools} (h : ToolsOk tools) (hnext : toolStep json tools event = some next) :
    ToolsOk next := by
  have hended : ∀ {id : JsText} (e : StreamProtocolEvent) (tool : StreamToolSnapshot), isProviderTool .running tool = true →
      ToolOk id tool → ToolOk id (endedTool e tool) := by
    intro id e tool hrunning hok
    have hprovider : tool.providerExecuted = some true := by
      rw [isProviderTool, Bool.and_eq_true, decide_eq_true_eq] at hrunning
      exact hrunning.1
    unfold endedTool
    split
    · exact hok
    · unfold terminateTool
      split <;> exact ⟨hok.keyed, fun _ => hprovider⟩
  cases event with
  | toolInputStart | toolInputReady | toolInputRejected =>
    obtain rfl := Option.some.inj hnext
    exact toolsOk_set h (.early rfl rfl (by simp [openedTool, readyTool, rejectedTool]))
  | toolInputContent id delta =>
    have hextended : ∀ tool, ToolOk id tool → ToolOk id (extendedTool delta tool) :=
      fun tool hok => .early hok.keyed rfl (by simp [extendedTool])
    exact toolsOk_changeTool h (fun tool _ hok => hextended tool hok) hnext
  | providerToolStart id =>
    have hstarted : ∀ tool, isProviderTool .inputReady tool = true → ToolOk id tool → ToolOk id { tool with phase := .running } := by
      intro tool hallowed hok
      rw [isProviderTool, Bool.and_eq_true, decide_eq_true_eq] at hallowed
      exact ⟨hok.keyed, fun _ => hallowed.1⟩
    exact toolsOk_changeTool h hstarted hnext
  | providerToolResult | providerToolDenied | providerToolCancelled =>
    exact toolsOk_changeTool h (fun tool hallowed hok => hended _ tool hallowed hok) hnext
  | stepFinish reason metadata =>
    obtain rfl := Option.some.inj hnext
    split
    · intro id tool htool
      rw [committedTools, OrdMap.get?_mapValues, Option.map_eq_some_iff] at htool
      obtain ⟨prior, hprior, rfl⟩ := htool
      split
      · exact settledTool_ok (h id prior hprior)
      · exact h id prior hprior
    · exact h
  | _ =>
    obtain rfl := Option.some.inj hnext
    exact h

theorem toolsOk_signal {signal : StreamSignal} (h : ToolsOk state.tools) :
    ToolsOk (signalTools json state signal) := by
  unfold signalTools
  split
  · exact h
  · split
    · rename_i event
      cases hnext : toolStep json state.tools event with
      | none => exact h
      | some next => exact toolsOk_step h hnext
    · exact h

theorem findTool_eq (hsync : Synced state) (hok : ToolsOk state.tools) (id : JsText) :
    findTool state.snapshot id = state.tools.get? id := by
  unfold findTool
  rw [hsync, OrdMap.values, List.find?_map, OrdMap.get?]
  congr 1
  refine List.find?_congr fun entry hentry => ?_
  have hkeyed := (hok entry.1 entry.2 ((OrdMap.get?_eq_some ..).mpr hentry)).keyed
  simp only [Function.comp, hkeyed]

end

/-! ## Reachable states -/

structure PartInv (frames : List StreamLifecycleFrame) (state : StreamReducerState) : Prop extends RunInv frames state where
  toolsOk : ToolsOk state.tools

section
variable {env : AdapterEnvironment} {json : JsonCodec} {s t : StreamReducerState} {prior frames : List StreamLifecycleFrame}

theorem partInv_initial : PartInv [] createInitialReducerState where
  toRunInv := runInv_initial
  toolsOk _ _ h := by cases h

theorem partInv_signals {calls : List SignalCall} (h : PartInv prior s) (hrun : reduceSignals json s calls = some (t, frames)) :
    PartInv (prior ++ frames) t := by
  refine ⟨runInv_run calls h.toRunInv hrun, ?_⟩
  induction calls generalizing s prior frames with
  | nil =>
    obtain ⟨rfl, rfl⟩ := Prod.mk.inj (Option.some.inj hrun)
    exact h.toolsOk
  | cons call calls ih =>
    obtain ⟨d, hd, rest, hrest, rfl⟩ := reduceSignals_cons.mp hrun
    refine ih ⟨runInv_step h.toRunInv hd, ?_⟩ hrest
    rw [tools_reduceStreamSignal hd]
    exact toolsOk_signal h.toolsOk

theorem partInv_part {call : PartCall} (h : PartInv prior s) (hrun : reducePart env s call = some (t, frames)) :
    PartInv (prior ++ frames) t := by
  obtain ⟨signals, -, hsignals⟩ := Option.bind_eq_some_iff.mp hrun
  exact partInv_signals h hsignals

theorem partInv_parts {calls : List PartCall} (h : PartInv prior s) (hrun : reduceParts env s calls = some (t, frames)) :
    PartInv (prior ++ frames) t := by
  induction calls generalizing s prior frames with
  | nil =>
    obtain ⟨rfl, rfl⟩ := Prod.mk.inj (Option.some.inj hrun)
    rw [List.append_nil]
    exact h
  | cons call calls ih =>
    obtain ⟨next, first, hfirst, rest, hrest, rfl⟩ := reduceParts_cons.mp hrun
    rw [← List.append_assoc]
    exact ih (partInv_part h hfirst) hrest

theorem partInv_run {calls : List PartCall} (hrun : reduceParts env createInitialReducerState calls = some (t, frames)) :
    PartInv frames t := partInv_parts partInv_initial hrun

end

end Veryfront.Agent.Streaming
