import Mathlib.Data.List.Nodup
import Veryfront.Agent.Streaming.MirroredToolChunks

/-!
# Each mirrored tool call ends once

A producer starts a call, makes its input available, and sends one final output. Or the call ends before that.
Wherever the stream is cut, the chunks that close it end every call that is open, and no other one, if no call
ended before its input was available.
-/

namespace Veryfront.Agent.Streaming

open Lib

/-! ## What a producer sends -/

namespace ChatUiMessageChunk

def toolCallId : ChatUiMessageChunk → Option String
  | toolInputStart id _ | toolInputDelta id _ | toolInputAvailable id _ _ | toolInputError id _ _ _
  | toolOutputAvailable id _ _ | toolOutputError id _ | toolOutputDenied id => some id
  | _ => none

def isTerminal : ChatUiMessageChunk → Bool
  | toolInputError .. | toolOutputError .. | toolOutputDenied .. => true
  | toolOutputAvailable _ _ preliminary => !preliminary
  | _ => false

def isFailure : ChatUiMessageChunk → Bool
  | toolOutputError .. | toolOutputDenied .. => true
  | _ => false

def givesInput : ChatUiMessageChunk → Bool
  | toolInputAvailable .. => true
  | _ => false

def endsCall (id : String) (chunk : ChatUiMessageChunk) : Bool := chunk.toolCallId = some id && chunk.isTerminal

def failsOutput (id : String) (chunk : ChatUiMessageChunk) : Bool := chunk.toolCallId = some id && chunk.isFailure

def providesInput (id : String) (chunk : ChatUiMessageChunk) : Bool := chunk.toolCallId = some id && chunk.givesInput

end ChatUiMessageChunk

/-- How far a call is. `endedEarly` is a call whose output failed or was denied before its input was available. -/
inductive CallPhase
  | unseen | started | available | ended | endedEarly
deriving DecidableEq

/-- The next chunk of a call, where its producer may send it. -/
def CallPhase.after : CallPhase → ChatUiMessageChunk → Option CallPhase
  | .unseen, .toolInputStart .. => some .started
  | .started, .toolInputDelta .. => some .started
  | .started, .toolInputAvailable .. => some .available
  | .started, .toolInputError .. => some .ended
  | .started, .toolOutputError .. | .started, .toolOutputDenied .. => some .endedEarly
  | .available, .toolOutputAvailable _ _ preliminary => some (if preliminary then .available else .ended)
  | .available, .toolOutputError .. | .available, .toolOutputDenied .. => some .ended
  | _, _ => none

def follow (phases : String → CallPhase) (chunk : ChatUiMessageChunk) : Option (String → CallPhase) :=
  match chunk.toolCallId with
  | none => some phases
  | some id => ((phases id).after chunk).map fun phase j => if j = id then phase else phases j

/-- Each tool call follows the protocol. A sequence that does is cut off at any point. -/
def FollowsProtocol (chunks : List ChatUiMessageChunk) : Prop :=
  (chunks.foldlM follow fun _ => .unseen).isSome = true

instance (chunks : List ChatUiMessageChunk) : Decidable (FollowsProtocol chunks) := inferInstanceAs (Decidable (_ = true))

def EndsEarly (chunks : List ChatUiMessageChunk) (toolCallId : String) : Prop :=
  (∃ chunk ∈ chunks, chunk.failsOutput toolCallId) ∧ ∀ chunk ∈ chunks, ¬ chunk.providesInput toolCallId

structure ClosesOnce (chunks : List ChatUiMessageChunk) (errorText : String) : Prop where
  closed :
    let state := recordAll createMirroredToolChunkState chunks
    computeOpenToolCalls (recordAll state (closeHostedMirroredOpenToolCalls state errorText).appended) = ⟨[], []⟩
  once : ∀ toolCallId, (∃ toolName, .toolInputStart toolCallId toolName ∈ chunks) →
    (chunks ++ (closeHostedMirroredOpenToolCalls (recordAll createMirroredToolChunkState chunks)
      errorText).appended).countP (·.endsCall toolCallId) = 1
  again :
    let state := recordAll createMirroredToolChunkState chunks
    ∀ again, (closeHostedMirroredOpenToolCalls (recordAll state
      (closeHostedMirroredOpenToolCalls state errorText).appended) again).appended = []

/-! ## What the state holds of one call -/

theorem mem_addId (id other : String) (ids : List String) : other ∈ addId id ids ↔ other = id ∨ other ∈ ids := by
  unfold addId
  split
  · rename_i h
    exact ⟨.inr, fun hor => hor.elim (fun heq => heq ▸ h) fun hmem => hmem⟩
  · rw [List.mem_append, List.mem_singleton, or_comm]

theorem nodup_addId {id : String} {ids : List String} (h : ids.Nodup) : (addId id ids).Nodup := by
  unfold addId
  split
  · exact h
  · rename_i hnew
    exact h.append (List.nodup_singleton id) (List.disjoint_singleton.mpr hnew)

structure CallView where
  started : Bool
  input : Bool
  output : Bool
deriving DecidableEq

namespace MirroredToolChunkState

variable (state : MirroredToolChunkState)

def view (id : String) : CallView :=
  ⟨state.startedToolCallIds.contains id, state.inputAvailableToolCallIds.contains id, state.hasOutput id⟩

@[simp] theorem view_nameToolCall (id name other : String) : (state.nameToolCall id name).view other = state.view other := by
  unfold nameToolCall
  split <;> rfl

@[simp] theorem started_nameToolCall (id name : String) :
    (state.nameToolCall id name).startedToolCallIds = state.startedToolCallIds := by
  unfold nameToolCall
  split <;> rfl

end MirroredToolChunkState

def CallView.record (view : CallView) : ChatUiMessageChunk → CallView
  | .toolInputStart .. => { view with started := true }
  | .toolInputAvailable .. => { view with started := true, input := true }
  | .toolInputError .. => ⟨true, true, true⟩
  | .toolOutputAvailable _ _ preliminary => if preliminary then view else { view with output := true }
  | .toolOutputError .. | .toolOutputDenied .. => { view with output := true }
  | _ => view

theorem view_record (state : MirroredToolChunkState) (chunk : ChatUiMessageChunk) (id : String) :
    (recordMirroredToolChunkState state chunk).view id =
      if chunk.toolCallId = some id then (state.view id).record chunk else state.view id := by
  have hcall {call : String} {view : CallView} (hchunk : chunk.toolCallId = some call)
      (hown : id = call → view = (state.view id).record chunk) (hother : id ≠ call → view = state.view id) :
      view = if chunk.toolCallId = some id then (state.view id).record chunk else state.view id := by
    rw [hchunk]
    by_cases hid : id = call
    · rw [if_pos (congrArg some hid.symm), hown hid]
    · rw [if_neg fun h => hid (Option.some.inj h).symm, hother hid]
  cases chunk with
  | reasoningStart | reasoningDelta | reasoningEnd | other => rfl
  | toolInputDelta => exact hcall rfl (fun _ => rfl) fun _ => rfl
  | toolInputStart | toolInputAvailable | toolInputError =>
    rw [recordMirroredToolChunkState, MirroredToolChunkState.view_nameToolCall]
    refine hcall rfl (fun hid => ?_) fun hid => ?_ <;>
      simp [MirroredToolChunkState.view, MirroredToolChunkState.start, MirroredToolChunkState.hasOutput, CallView.record,
        mem_addId, hid]
  | toolOutputError | toolOutputDenied =>
    refine hcall rfl (fun hid => ?_) fun hid => ?_ <;>
      simp [recordMirroredToolChunkState, MirroredToolChunkState.view, MirroredToolChunkState.hasOutput, CallView.record,
        mem_addId, hid]
  | toolOutputAvailable call output preliminary =>
    cases preliminary with
    | true => exact hcall rfl (fun _ => rfl) fun _ => rfl
    | false =>
      refine hcall rfl (fun hid => ?_) fun hid => ?_ <;>
        simp [recordMirroredToolChunkState, MirroredToolChunkState.view, MirroredToolChunkState.hasOutput, CallView.record,
          mem_addId, hid]

theorem started_record (state : MirroredToolChunkState) (chunk : ChatUiMessageChunk) :
    (recordMirroredToolChunkState state chunk).startedToolCallIds = state.startedToolCallIds ∨
      ∃ id, (recordMirroredToolChunkState state chunk).startedToolCallIds = addId id state.startedToolCallIds := by
  cases chunk with
  | toolInputStart call | toolInputAvailable call | toolInputError call =>
    exact .inr ⟨call, MirroredToolChunkState.started_nameToolCall ..⟩
  | toolOutputAvailable call output preliminary => cases preliminary <;> exact .inl rfl
  | _ => exact .inl rfl

/-! ## A call and its phase -/

def CallPhase.view : CallPhase → CallView
  | .unseen => ⟨false, false, false⟩
  | .started => ⟨true, false, false⟩
  | .available => ⟨true, true, false⟩
  | .ended => ⟨true, true, true⟩
  | .endedEarly => ⟨true, false, true⟩

/-- What the chunks of a call can be in a phase: whether one of them failed its output, and whether one gave its input. -/
def CallPhase.Shows (failed provided : Bool) : CallPhase → Prop
  | .unseen | .started => failed = false ∧ provided = false
  | .available => failed = false ∧ provided = true
  | .ended => failed = true → provided = true
  | .endedEarly => failed = true ∧ provided = false

structure Profile (chunks : List ChatUiMessageChunk) (id : String) (phase : CallPhase) : Prop where
  announced : (∃ name, .toolInputStart id name ∈ chunks) ↔ phase ≠ .unseen
  terminals : chunks.countP (·.endsCall id) = if phase.view.output then 1 else 0
  shows : phase.Shows (chunks.any (·.failsOutput id)) (chunks.any (·.providesInput id))

variable {phase phase' : CallPhase} {chunk : ChatUiMessageChunk} {chunks : List ChatUiMessageChunk} {id : String}

theorem after_view (h : phase.after chunk = some phase') : phase.view.record chunk = phase'.view := by
  cases phase <;> cases chunk <;> simp only [CallPhase.after, reduceCtorEq, Option.some.injEq] at h <;> subst h
  case available.toolOutputAvailable preliminary => cases preliminary <;> rfl
  all_goals rfl

theorem after_output (h : phase.after chunk = some phase') :
    phase.view.output = false ∧ phase'.view.output = chunk.isTerminal := by
  cases phase <;> cases chunk <;> simp only [CallPhase.after, reduceCtorEq, Option.some.injEq] at h <;> subst h
  case available.toolOutputAvailable preliminary => cases preliminary <;> exact ⟨rfl, rfl⟩
  all_goals exact ⟨rfl, rfl⟩

theorem after_shows {failed provided : Bool} (h : phase.after chunk = some phase') (hs : phase.Shows failed provided) :
    phase'.Shows (failed || chunk.isFailure) (provided || chunk.givesInput) := by
  cases phase <;> cases chunk <;> simp only [CallPhase.after, reduceCtorEq, Option.some.injEq] at h <;> subst h
  case available.toolOutputAvailable preliminary =>
    cases preliminary <;> simp_all [CallPhase.Shows, ChatUiMessageChunk.isFailure, ChatUiMessageChunk.givesInput]
  all_goals simp_all [CallPhase.Shows, ChatUiMessageChunk.isFailure, ChatUiMessageChunk.givesInput]

theorem after_started (hid : chunk.toolCallId = some id) (h : phase.after chunk = some phase') :
    phase' ≠ .unseen ∧ (phase = .unseen → ∃ name, chunk = .toolInputStart id name) := by
  cases phase <;> cases chunk <;> simp only [CallPhase.after, reduceCtorEq, Option.some.injEq] at h <;> subst h
  case unseen.toolInputStart call name =>
    obtain rfl : call = id := Option.some.inj hid
    exact ⟨nofun, fun _ => ⟨name, rfl⟩⟩
  case available.toolOutputAvailable preliminary => cases preliminary <;> exact ⟨nofun, nofun⟩
  all_goals exact ⟨nofun, nofun⟩

theorem Profile.own (hp : Profile chunks id phase) (hid : chunk.toolCallId = some id) (h : phase.after chunk = some phase') :
    Profile (chunks ++ [chunk]) id phase' := by
  have hends : chunk.endsCall id = chunk.isTerminal := by
    rw [ChatUiMessageChunk.endsCall, decide_eq_true hid, Bool.true_and]
  have hfails : chunk.failsOutput id = chunk.isFailure := by
    rw [ChatUiMessageChunk.failsOutput, decide_eq_true hid, Bool.true_and]
  have hprovides : chunk.providesInput id = chunk.givesInput := by
    rw [ChatUiMessageChunk.providesInput, decide_eq_true hid, Bool.true_and]
  obtain ⟨hseen, hstart⟩ := after_started hid h
  obtain ⟨hopen, houtput⟩ := after_output h
  refine ⟨⟨fun _ => hseen, fun _ => ?_⟩, ?_, ?_⟩
  · by_cases hunseen : phase = .unseen
    · obtain ⟨name, rfl⟩ := hstart hunseen
      exact ⟨name, List.mem_append_right _ (List.mem_singleton.mpr rfl)⟩
    · obtain ⟨name, hmem⟩ := hp.announced.mpr hunseen
      exact ⟨name, List.mem_append_left _ hmem⟩
  · rw [List.countP_append, hp.terminals, hopen, houtput, List.countP_singleton, hends, if_neg Bool.false_ne_true,
      Nat.zero_add]
  · have hshows := after_shows h hp.shows
    rw [← hfails, ← hprovides] at hshows
    simpa using hshows

theorem Profile.other (hp : Profile chunks id phase) (hid : chunk.toolCallId ≠ some id) : Profile (chunks ++ [chunk]) id phase := by
  have hends : chunk.endsCall id = false := by rw [ChatUiMessageChunk.endsCall, decide_eq_false hid, Bool.false_and]
  have hfails : chunk.failsOutput id = false := by rw [ChatUiMessageChunk.failsOutput, decide_eq_false hid, Bool.false_and]
  have hprovides : chunk.providesInput id = false := by
    rw [ChatUiMessageChunk.providesInput, decide_eq_false hid, Bool.false_and]
  have hstart (name : String) : .toolInputStart id name ∈ chunks ++ [chunk] ↔ .toolInputStart id name ∈ chunks := by
    rw [List.mem_append, List.mem_singleton]
    refine or_iff_left fun heq => hid ?_
    rw [← heq]
    rfl
  refine ⟨?_, ?_, ?_⟩
  · simp only [hstart]
    exact hp.announced
  · simp [List.countP_append, hp.terminals, hends]
  · simpa [hfails, hprovides] using hp.shows

/-! ## A state and its phases -/

structure Tracks (phases : String → CallPhase) (chunks : List ChatUiMessageChunk) (state : MirroredToolChunkState) :
    Prop where
  view : ∀ id, state.view id = (phases id).view
  nodup : state.startedToolCallIds.Nodup
  profile : ∀ id, Profile chunks id (phases id)

variable {phases phases' : String → CallPhase} {state : MirroredToolChunkState}

theorem tracks_start : Tracks (fun _ => .unseen) [] createMirroredToolChunkState := by
  refine ⟨fun _ => rfl, List.nodup_nil, fun id => ⟨?_, rfl, rfl, rfl⟩⟩
  simp

theorem follow_cases (h : follow phases chunk = some phases') (id : String) :
    (chunk.toolCallId = some id ∧ (phases id).after chunk = some (phases' id)) ∨
    (chunk.toolCallId ≠ some id ∧ phases' id = phases id) := by
  unfold follow at h
  split at h
  · rename_i hnone
    obtain rfl := Option.some.inj h
    exact .inr ⟨by rw [hnone]; exact nofun, rfl⟩
  · rename_i call hcall
    obtain ⟨phase, hphase, rfl⟩ := Option.map_eq_some_iff.mp h
    by_cases hid : id = call
    · subst hid
      exact .inl ⟨hcall, hphase.trans (congrArg some (if_pos rfl).symm)⟩
    · refine .inr ⟨fun hsome => hid ?_, if_neg hid⟩
      rw [hcall] at hsome
      exact (Option.some.inj hsome).symm

theorem Tracks.next (h : Tracks phases chunks state) (hfollow : follow phases chunk = some phases') :
    Tracks phases' (chunks ++ [chunk]) (recordMirroredToolChunkState state chunk) where
  view id := by
    rw [view_record, h.view id]
    rcases follow_cases hfollow id with ⟨hid, hafter⟩ | ⟨hid, hsame⟩
    · rw [if_pos hid, after_view hafter]
    · rw [if_neg hid, hsame]
  nodup := by
    rcases started_record state chunk with hsame | ⟨id, hadd⟩
    · exact hsame ▸ h.nodup
    · exact hadd ▸ nodup_addId h.nodup
  profile id := by
    rcases follow_cases hfollow id with ⟨hid, hafter⟩ | ⟨hid, hsame⟩
    · exact (h.profile id).own hid hafter
    · exact hsame ▸ (h.profile id).other hid

theorem Tracks.extend (more : List ChatUiMessageChunk) : ∀ {phases : String → CallPhase} {chunks : List ChatUiMessageChunk}
    {state : MirroredToolChunkState}, Tracks phases chunks state → more.foldlM follow phases = some phases' →
    Tracks phases' (chunks ++ more) (recordAll state more) := by
  induction more with
  | nil =>
    intro phases chunks state h hfollow
    obtain rfl := Option.some.inj hfollow
    rwa [List.append_nil]
  | cons chunk more ih =>
    intro phases chunks state h hfollow
    rw [List.foldlM_cons] at hfollow
    obtain ⟨mid, hmid, hrest⟩ := Option.bind_eq_some_iff.mp hfollow
    have hnext := ih (h.next hmid) hrest
    rwa [List.append_assoc] at hnext

/-! ## The closing chunks -/

theorem follow_ending (closing : List ChatUiMessageChunk) : ∀ phases : String → CallPhase,
    (closing.map (·.toolCallId)).Nodup →
    (∀ chunk ∈ closing, ∃ id, chunk.toolCallId = some id ∧ (phases id).after chunk = some .ended) →
    ∃ phases', closing.foldlM follow phases = some phases' ∧
      ∀ id, phases' id = if some id ∈ closing.map (·.toolCallId) then .ended else phases id := by
  induction closing with
  | nil => exact fun phases _ _ => ⟨phases, rfl, fun id => by simp⟩
  | cons chunk closing ih =>
    intro phases hnodup hends
    rw [List.map_cons, List.nodup_cons] at hnodup
    obtain ⟨id, hid, hafter⟩ := hends chunk List.mem_cons_self
    have hfollow : follow phases chunk = some fun j => if j = id then .ended else phases j := by
      rw [follow, hid]
      show ((phases id).after chunk).map _ = _
      rw [hafter]
      rfl
    obtain ⟨phases', hrest, hphases⟩ := ih (fun j => if j = id then .ended else phases j) hnodup.2 fun later hlater => by
      obtain ⟨call, hcall, hcallAfter⟩ := hends later (List.mem_cons_of_mem chunk hlater)
      have hne : call ≠ id := by
        rintro rfl
        exact hnodup.1 (hid.trans hcall.symm ▸ List.mem_map_of_mem hlater)
      exact ⟨call, hcall, by rw [if_neg hne]; exact hcallAfter⟩
    refine ⟨phases', ?_, fun j => ?_⟩
    · rw [List.foldlM_cons, hfollow]
      exact hrest
    · rw [hphases j]
      by_cases hj : j = id <;> simp [hj, hid]

def inputIds (state : MirroredToolChunkState) : List String :=
  state.startedToolCallIds.filter fun id => !state.inputAvailableToolCallIds.contains id

def outputIds (state : MirroredToolChunkState) : List String :=
  state.startedToolCallIds.filter fun id => state.inputAvailableToolCallIds.contains id && !state.hasOutput id

theorem appended_eq (state : MirroredToolChunkState) (errorText : String) :
    (closeHostedMirroredOpenToolCalls state errorText).appended =
      (inputIds state).map (fun id => closeInputChunk errorText (state.openToolCall id)) ++
        (outputIds state).map fun id => closeOutputChunk errorText (state.openToolCall id) := by
  have hopen : (computeOpenToolCalls state).needsInputClose = (inputIds state).map state.openToolCall ∧
      (computeOpenToolCalls state).needsOutputClose = (outputIds state).map state.openToolCall := ⟨rfl, rfl⟩
  unfold closeHostedMirroredOpenToolCalls
  dsimp only
  rw [hopen.1, hopen.2]
  split
  · rename_i hnone
    rw [List.length_map, List.length_map, List.length_eq_zero_iff, List.length_eq_zero_iff] at hnone
    rw [hnone.1, hnone.2]
    rfl
  · exact congrArg₂ (· ++ ·) List.map_map List.map_map

theorem appended_ids (state : MirroredToolChunkState) (errorText : String) :
    (closeHostedMirroredOpenToolCalls state errorText).appended.map (·.toolCallId) =
      (inputIds state ++ outputIds state).map some := by
  rw [appended_eq, List.map_append, List.map_map, List.map_map, List.map_append]
  rfl

theorem computeOpen_empty (state : MirroredToolChunkState) (h : inputIds state ++ outputIds state = []) :
    computeOpenToolCalls state = ⟨[], []⟩ := by
  obtain ⟨hinput, houtput⟩ := List.append_eq_nil_iff.mp h
  show OpenToolCalls.mk ((inputIds state).map _) ((outputIds state).map _) = _
  rw [hinput, houtput]
  rfl

theorem mem_inputIds {state : MirroredToolChunkState} {id : String} :
    id ∈ inputIds state ↔ (state.view id).started = true ∧ (state.view id).input = false := by
  rw [inputIds, List.mem_filter, MirroredToolChunkState.view, List.contains_iff_mem, Bool.not_eq_true']

theorem mem_outputIds {state : MirroredToolChunkState} {id : String} :
    id ∈ outputIds state ↔ (state.view id).started = true ∧ (state.view id).input = true ∧ (state.view id).output = false := by
  rw [outputIds, List.mem_filter, MirroredToolChunkState.view, List.contains_iff_mem, Bool.and_eq_true, Bool.not_eq_true']

theorem nodup_ids (h : state.startedToolCallIds.Nodup) : (inputIds state ++ outputIds state).Nodup := by
  refine (h.filter _).append (h.filter _) fun id hinput houtput => ?_
  have hone := (mem_inputIds.mp hinput).2
  have htwo := (mem_outputIds.mp houtput).2.1
  rw [hone] at htwo
  cases htwo

theorem Tracks.endsEarly (h : Tracks phases chunks state) (id : String) : EndsEarly chunks id ↔ phases id = .endedEarly := by
  have hshows := (h.profile id).shows
  have hearly : EndsEarly chunks id ↔ chunks.any (·.failsOutput id) = true ∧ chunks.any (·.providesInput id) = false := by
    rw [EndsEarly, List.any_eq_true, List.any_eq_false]
  rw [hearly]
  generalize chunks.any (·.failsOutput id) = failed at hshows
  generalize chunks.any (·.providesInput id) = provided at hshows
  cases hphase : phases id <;> rw [hphase] at hshows <;> simp_all [CallPhase.Shows]

/-! ## Every call ends once -/

theorem Tracks.close (h : Tracks phases chunks state) (hearly : ∀ id, phases id ≠ .endedEarly) (errorText : String) :
    ∃ phases', Tracks phases' (chunks ++ (closeHostedMirroredOpenToolCalls state errorText).appended)
        (recordAll state (closeHostedMirroredOpenToolCalls state errorText).appended) ∧
      ∀ id, phases' id = if phases id = .unseen then .unseen else .ended := by
  have hinput {id : String} (hid : id ∈ inputIds state) : phases id = .started := by
    have hview := mem_inputIds.mp hid
    rw [h.view id] at hview
    cases hphase : phases id <;> rw [hphase] at hview <;> simp_all [CallPhase.view]
  have houtput {id : String} (hid : id ∈ outputIds state) : phases id = .available := by
    have hview := mem_outputIds.mp hid
    rw [h.view id] at hview
    cases hphase : phases id <;> rw [hphase] at hview <;> simp_all [CallPhase.view]
  have hnodup : ((closeHostedMirroredOpenToolCalls state errorText).appended.map (·.toolCallId)).Nodup := by
    rw [appended_ids]
    exact (nodup_ids h.nodup).map fun _ _ hsome => Option.some.inj hsome
  obtain ⟨phases', hfollow, hphases⟩ := follow_ending _ phases hnodup fun chunk hchunk => by
    rw [appended_eq, List.mem_append, List.mem_map, List.mem_map] at hchunk
    rcases hchunk with ⟨id, hid, rfl⟩ | ⟨id, hid, rfl⟩
    · exact ⟨id, rfl, by rw [hinput hid]; rfl⟩
    · exact ⟨id, rfl, by rw [houtput hid]; rfl⟩
  refine ⟨phases', h.extend _ hfollow, fun id => ?_⟩
  have hopen : id ∈ inputIds state ++ outputIds state ↔ phases id = .started ∨ phases id = .available := by
    rw [List.mem_append, mem_inputIds, mem_outputIds, h.view id]
    cases hphase : phases id with
    | endedEarly => exact absurd hphase (hearly id)
    | _ => simp [CallPhase.view]
  rw [hphases id, appended_ids]
  have hmem : some id ∈ (inputIds state ++ outputIds state).map some ↔ id ∈ inputIds state ++ outputIds state := by simp
  simp only [hmem, hopen]
  cases hphase : phases id with
  | endedEarly => exact absurd hphase (hearly id)
  | _ => rfl

theorem Tracks.nothingOpen (h : Tracks phases chunks state) (hended : ∀ id, phases id = .unseen ∨ phases id = .ended) :
    inputIds state ++ outputIds state = [] := by
  refine List.eq_nil_iff_forall_not_mem.mpr fun id hid => ?_
  rw [List.mem_append, mem_inputIds, mem_outputIds, h.view id] at hid
  rcases hended id with hphase | hphase <;> simp [hphase, CallPhase.view] at hid

theorem Tracks.endedTwice (h : Tracks phases chunks state) {id : String} (hearly : phases id = .endedEarly)
    (errorText : String) :
    (chunks ++ (closeHostedMirroredOpenToolCalls state errorText).appended).countP (·.endsCall id) ≠ 1 := by
  have hmem : id ∈ inputIds state := by
    rw [mem_inputIds, h.view id, hearly]
    exact ⟨rfl, rfl⟩
  have hpos : 0 < (closeHostedMirroredOpenToolCalls state errorText).appended.countP (·.endsCall id) := by
    refine List.countP_pos_iff.mpr ⟨closeInputChunk errorText (state.openToolCall id), ?_, ?_⟩
    · rw [appended_eq]
      exact List.mem_append_left _ (List.mem_map_of_mem hmem)
    · simp [ChatUiMessageChunk.endsCall, closeInputChunk, ChatUiMessageChunk.toolCallId, ChatUiMessageChunk.isTerminal,
        MirroredToolChunkState.openToolCall]
  rw [List.countP_append, (h.profile id).terminals, hearly]
  show 1 + _ ≠ 1
  omega

/-- Closing ends every open call exactly once if and only if no call ended before its input was available. -/
theorem closesOnce_iff (hfollows : FollowsProtocol chunks) (errorText : String) :
    ClosesOnce chunks errorText ↔ ∀ toolCallId, ¬ EndsEarly chunks toolCallId := by
  obtain ⟨phases, hphases⟩ := Option.isSome_iff_exists.mp hfollows
  have h : Tracks phases chunks (recordAll createMirroredToolChunkState chunks) := tracks_start.extend chunks hphases
  constructor
  · intro hcloses id hearly
    have hphase := (h.endsEarly id).mp hearly
    have hseen : phases id ≠ .unseen := by
      rw [hphase]
      exact nofun
    exact h.endedTwice hphase errorText (hcloses.once id ((h.profile id).announced.mpr hseen))
  · intro hnone
    obtain ⟨phases', htracks, hended⟩ := h.close (fun id hphase => hnone id ((h.endsEarly id).mpr hphase)) errorText
    have hnothing := htracks.nothingOpen fun id => by
      rw [hended id]
      split
      · exact .inl rfl
      · exact .inr rfl
    refine ⟨computeOpen_empty _ hnothing, fun id hstarted => ?_, fun again => ?_⟩
    · have hseen := (h.profile id).announced.mp hstarted
      have hphase : phases' id = .ended := (hended id).trans (if_neg hseen)
      have hcount := (htracks.profile id).terminals
      rw [hphase] at hcount
      exact hcount
    · have hids := appended_ids (recordAll (recordAll createMirroredToolChunkState chunks)
        (closeHostedMirroredOpenToolCalls (recordAll createMirroredToolChunkState chunks) errorText).appended) again
      rw [hnothing, List.map_nil] at hids
      exact List.map_eq_nil_iff.mp hids

/-- One call without its input, one with it, and one that is done. -/
def cutChunks : List ChatUiMessageChunk :=
  [.toolInputStart "a" "bash", .toolInputStart "b" "read", .toolInputAvailable "b" "read" "{}", .toolInputStart "c" "",
    .toolInputAvailable "c" "bash" "{}", .toolOutputAvailable "c" "1" true, .toolOutputDenied "c"]

theorem closesOnce_iff_cut : ClosesOnce cutChunks "aborted" :=
  (closesOnce_iff (by decide) "aborted").mpr fun toolCallId ⟨⟨chunk, hmem, hfails⟩, hnone⟩ => by
    have hdenied : toolCallId = "c" := by
      simp only [cutChunks, List.mem_cons, List.not_mem_nil, or_false] at hmem
      rcases hmem with rfl | rfl | rfl | rfl | rfl | rfl | rfl <;>
        simp_all [ChatUiMessageChunk.failsOutput, ChatUiMessageChunk.isFailure, ChatUiMessageChunk.toolCallId]
    subst hdenied
    exact hnone (.toolInputAvailable "c" "bash" "{}") (by simp [cutChunks]) rfl

theorem closesOnce_denied : FollowsProtocol [.toolInputStart "a" "bash", .toolOutputDenied "a"] ∧
    ¬ ClosesOnce [.toolInputStart "a" "bash", .toolOutputDenied "a"] "aborted" := by
  refine ⟨by decide, fun h => ?_⟩
  have honce := h.once "a" ⟨"bash", List.mem_cons_self⟩
  revert honce
  decide

end Veryfront.Agent.Streaming
