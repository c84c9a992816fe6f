import Veryfront.Agent.Conversation.AppendController
import Veryfront.Lib.Runs

/-!
# Every event is appended once, in order

A part of what was enqueued lies at a place: its events follow each other there, and its sidecars are
the ones of these events. What is committed, what a flush holds and what is pending lie one behind the
other, as long as no flush throws after one of its batches was committed.
-/

namespace Veryfront.Agent.Conversation

open Veryfront.Lib

variable {ε ω : Type}

/-! ## Places in what was enqueued -/

/-- The queue is what was enqueued from `start` on. -/
structure LiesAt (enqueued : EventQueue ε ω) (start : Nat) (queue : EventQueue ε ω) : Prop where
  events : queue.events <+: enqueued.events.drop start
  starts : queue.toolCallStarts.Perm (selectMarks enqueued.toolCallStarts start queue.events.length)
  observations : queue.runtimeObservations.Perm (selectMarks enqueued.runtimeObservations start queue.events.length)

structure MarkedInside (queue : EventQueue ε ω) : Prop where
  starts : ∀ mark ∈ queue.toolCallStarts, mark.index < queue.events.length
  observations : ∀ mark ∈ queue.runtimeObservations, mark.index < queue.events.length

variable {queue : EventQueue ε ω}

theorem markedInside_iff : queue.isMarkedInside = true ↔ MarkedInside queue := by
  rw [EventQueue.isMarkedInside, Bool.and_eq_true, List.all_eq_true, List.all_eq_true]
  simp only [decide_eq_true_eq]
  exact ⟨fun h => ⟨h.1, h.2⟩, fun h => ⟨h.starts, h.observations⟩⟩

section
variable {g : EventQueue ε ω} {start : Nat} {a b new : EventQueue ε ω}

theorem selectMarks_empty {σ : Type} (marks : List (Mark σ)) (start : Nat) : selectMarks marks start 0 = [] := by
  rw [selectMarks, List.filter_eq_nil_iff.mpr fun mark _ => ?_]
  · rfl
  · simp only [inRange, Bool.and_eq_true, decide_eq_true_eq]
    omega

theorem liesAt_empty (g : EventQueue ε ω) (start : Nat) : LiesAt g start {} where
  events := List.nil_prefix
  starts := by rw [show ({} : EventQueue ε ω).events.length = 0 from rfl, selectMarks_empty]
  observations := by rw [show ({} : EventQueue ε ω).events.length = 0 from rfl, selectMarks_empty]

theorem join_empty (a : EventQueue ε ω) : a.join {} = a := by
  simp only [EventQueue.join, List.append_nil, shiftToolCallAdmissionStarts, shiftRuntimeObservations, shiftMarks, List.map_nil]

theorem length_join (a b : EventQueue ε ω) : (a.join b).events.length = a.events.length + b.events.length := List.length_append

theorem LiesAt.join (ha : LiesAt g start a) (hb : LiesAt g (start + a.events.length) b) : LiesAt g start (a.join b) where
  events := by
    obtain ⟨rest, hrest⟩ := ha.events
    obtain ⟨more, hmore⟩ := hb.events
    refine ⟨more, ?_⟩
    rw [EventQueue.join, List.append_assoc, hmore, ← hrest]
    rw [← List.drop_drop, ← hrest, List.drop_left]
  starts := by
    rw [length_join]
    exact (ha.starts.append (shiftMarks_perm hb.starts _)).trans (selectMarks_split ..)
  observations := by
    rw [length_join]
    exact (ha.observations.append (shiftMarks_perm hb.observations _)).trans (selectMarks_split ..)

theorem LiesAt.slice (ha : LiesAt g start a) {front events rest : List ε} (heq : a.events = front ++ (events ++ rest)) :
    LiesAt g (start + front.length) (a.slice front.length events) where
  events := by
    obtain ⟨more, hmore⟩ := ha.events
    refine ⟨rest ++ more, ?_⟩
    rw [← List.drop_drop, ← hmore, heq, List.append_assoc, List.drop_left]
    exact (List.append_assoc ..).symm
  starts := by
    have hin : front.length + events.length ≤ a.events.length := by
      rw [heq, List.length_append, List.length_append]
      omega
    have hselect := selectMarks_perm ha.starts front.length events.length
    rw [selectMarks_selectMarks _ hin] at hselect
    exact hselect
  observations := by
    have hin : front.length + events.length ≤ a.events.length := by
      rw [heq, List.length_append, List.length_append]
      omega
    have hselect := selectMarks_perm ha.observations front.length events.length
    rw [selectMarks_selectMarks _ hin] at hselect
    exact hselect

theorem LiesAt.length_le (ha : LiesAt g start a) (hne : a.events ≠ []) : start + a.events.length ≤ g.events.length := by
  have hlength := ha.events.length_le
  rw [List.length_drop] at hlength
  have hpos := List.length_pos_iff.mpr hne
  omega

theorem selectMarks_later {σ : Type} (marks later : List (Mark σ)) {start count length : Nat} (h : count = 0 ∨ start + count ≤ length) :
    selectMarks (marks ++ shiftMarks later length) start count = selectMarks marks start count := by
  rw [selectMarks_append]
  rcases h with rfl | h
  · rw [selectMarks_empty, selectMarks_empty]
    rfl
  · have hbeyond : ∀ mark ∈ shiftMarks later length, start + count ≤ mark.index := by
      intro mark hmark
      obtain ⟨source, -, rfl⟩ := List.mem_map.mp hmark
      exact Nat.le_trans h (Nat.le_add_left ..)
    rw [selectMarks_eq_nil hbeyond, List.append_nil]

theorem LiesAt.grow (ha : LiesAt g start a) (new : EventQueue ε ω) : LiesAt (g.join new) start a := by
  have hlength : a.events.length = 0 ∨ start + a.events.length ≤ g.events.length := by
    by_cases hne : a.events = []
    · exact .inl (by rw [hne]; rfl)
    · exact .inr (ha.length_le hne)
  refine ⟨?_, ?_, ?_⟩
  · rw [EventQueue.join, List.drop_append]
    exact ha.events.trans (List.prefix_append ..)
  · rw [EventQueue.join, shiftToolCallAdmissionStarts, selectMarks_later _ _ hlength]
    exact ha.starts
  · rw [EventQueue.join, shiftRuntimeObservations, selectMarks_later _ _ hlength]
    exact ha.observations

theorem liesAt_new (hg : MarkedInside g) (hnew : MarkedInside new) : LiesAt (g.join new) g.events.length new := by
  have hselect : ∀ {σ : Type} (marks later : List (Mark σ)), (∀ mark ∈ marks, mark.index < g.events.length) →
      (∀ mark ∈ later, mark.index < new.events.length) →
      selectMarks (marks ++ shiftMarks later g.events.length) g.events.length new.events.length = later := by
    intro σ marks later hmarks hlater
    have hshift := selectMarks_shiftMarks later 0 new.events.length g.events.length
    rw [Nat.zero_add] at hshift
    rw [selectMarks_append, hshift, selectMarks_all hlater, selectMarks, List.filter_eq_nil_iff.mpr fun mark hmark => ?_]
    · rfl
    · have := hmarks mark hmark
      simp only [inRange, Bool.and_eq_true, decide_eq_true_eq]
      omega
  refine ⟨?_, ?_, ?_⟩
  · exact ⟨[], (List.append_nil _).trans List.drop_left.symm⟩
  · rw [EventQueue.join, shiftToolCallAdmissionStarts, hselect _ _ hg.starts hnew.starts]
  · rw [EventQueue.join, shiftRuntimeObservations, hselect _ _ hg.observations hnew.observations]

theorem MarkedInside.join (hg : MarkedInside g) (hnew : MarkedInside new) : MarkedInside (g.join new) := by
  refine ⟨fun mark hmark => ?_, fun mark hmark => ?_⟩
  · rw [length_join]
    rcases List.mem_append.mp hmark with hold | hlater
    · exact Nat.lt_add_right _ (hg.starts mark hold)
    · obtain ⟨source, hsource, rfl⟩ := List.mem_map.mp hlater
      have := hnew.starts source hsource
      show source.index + g.events.length < _
      omega
  · rw [length_join]
    rcases List.mem_append.mp hmark with hold | hlater
    · exact Nat.lt_add_right _ (hg.observations mark hold)
    · obtain ⟨source, hsource, rfl⟩ := List.mem_map.mp hlater
      have := hnew.observations source hsource
      show source.index + g.events.length < _
      omega

end

/-! ## Batches -/

section
variable (ops : EventOps ε ω) {maxEvents maxBytes : Nat}

theorem batchesFrom_flatten {events current : List ε} {bytes : Nat} {batches : List (List ε)}
    (h : batchesFrom ops maxEvents maxBytes events current bytes = some batches) :
    batches.flatten = current ++ events ∧ ∀ batch ∈ batches, batch ≠ [] := by
  induction events generalizing current bytes batches with
  | nil =>
    obtain rfl := Option.some.inj h
    cases current with
    | nil => exact ⟨rfl, nofun⟩
    | cons event current => exact ⟨by simp, by simp⟩
  | cons event events ih =>
    obtain ⟨eventBytes, -, hrest⟩ := Option.bind_eq_some_iff.mp h
    split at hrest
    · rename_i hfull
      obtain ⟨more, hmore, hcons⟩ := Option.bind_eq_some_iff.mp hrest
      obtain rfl := Option.some.inj hcons
      obtain ⟨hflatten, hne⟩ := ih hmore
      refine ⟨by rw [List.flatten_cons, hflatten]; rfl, fun batch hbatch => ?_⟩
      rcases List.mem_cons.mp hbatch with rfl | hbatch
      · exact List.length_pos_iff.mp hfull.1
      · exact hne batch hbatch
    · obtain ⟨hflatten, hne⟩ := ih hrest
      exact ⟨by rw [hflatten, List.append_assoc]; rfl, hne⟩

theorem batchesFrom_isSome {events current : List ε} {bytes : Nat} :
    (batchesFrom ops maxEvents maxBytes events current bytes).isSome = true ↔
      ∀ event ∈ events, (ops.jsonByteLength event).isSome = true := by
  induction events generalizing current bytes with
  | nil => exact iff_of_true rfl nofun
  | cons event events ih =>
    rw [batchesFrom, List.forall_mem_cons]
    cases hbytes : ops.jsonByteLength event with
    | none => exact iff_of_false nofun fun h => nomatch h.1
    | some eventBytes =>
      dsimp only [Option.bind_eq_bind, Option.bind_some]
      split
      · have hmore : (batchesFrom ops maxEvents maxBytes events [event] eventBytes).isSome = true ↔ _ := ih
        rw [← hmore]
        cases batchesFrom ops maxEvents maxBytes events [event] eventBytes <;> simp
      · rw [ih]
        exact (and_iff_right rfl).symm

end

/-! ## Requests -/

def normalForm (ops : EventOps ε ω) (event : ε) : List ε := (ops.normalize event).getD []

def wireStart (ops : EventOps ε ω) (start : ConversationRunToolCallAdmissionStart) : ConversationRunToolCallAdmissionStart :=
  { start with item := ops.normalizeReceiptId start.item }

structure Requests (ops : EventOps ε ω) (queue : EventQueue ε ω) (request : AppendRequest ε ω) : Prop where
  events : request.events = queue.events.flatMap (normalForm ops)
  starts : request.toolCallStarts = queue.toolCallStarts.map (wireStart ops)
  observations : request.runtimeObservations = queue.runtimeObservations
  stable : queue.toolCallStarts ≠ [] ∨ queue.runtimeObservations ≠ [] → ∀ event ∈ queue.events, (normalForm ops event).length = 1

section
variable {ops : EventOps ε ω}

theorem readSubmitted_starts {events : List ε} {starts : List ConversationRunToolCallAdmissionStart} {seenOccurrences : List String}
    {seenEventIndexes : List Nat} {submitted : List (ConversationRunToolCallAdmissionStart × String)}
    (h : readSubmittedToolCallAdmissionStarts ops events starts seenOccurrences seenEventIndexes = some submitted) :
    submitted.map Prod.fst = starts.map (wireStart ops) := by
  induction starts generalizing seenOccurrences seenEventIndexes submitted with
  | nil =>
    obtain rfl := Option.some.inj h
    rfl
  | cons start starts ih =>
    unfold readSubmittedToolCallAdmissionStarts at h
    split at h
    · cases h
    · split at h
      · cases h
      · dsimp only at h
        split at h
        · cases h
        · obtain ⟨more, hmore, rfl⟩ := Option.map_eq_some_iff.mp h
          rw [List.map_cons, List.map_cons, ih hmore]
          rfl

theorem mapM_normalize {events : List ε} {normalized : List (List ε)} (h : events.mapM ops.normalize = some normalized) :
    normalized = events.map (normalForm ops) := by
  induction events generalizing normalized with
  | nil =>
    obtain rfl := Option.some.inj h
    rfl
  | cons event events ih =>
    rw [List.mapM_cons] at h
    obtain ⟨first, hfirst, hrest⟩ := Option.bind_eq_some_iff.mp h
    obtain ⟨more, hmore, hcons⟩ := Option.bind_eq_some_iff.mp hrest
    obtain rfl := Option.some.inj hcons
    rw [List.map_cons, ← ih hmore, normalForm, hfirst]
    rfl

theorem requests_of_appendRequest {config : QueueConfig} {eventId : Option Nat} {sequence : Nat}
    {request : AppendRequest ε ω} (h : appendRequest ops config eventId sequence queue = some request) : Requests ops queue request := by
  unfold appendRequest at h
  split at h
  · cases h
  · obtain ⟨starts, hstarts, h⟩ := Option.bind_eq_some_iff.mp h
    obtain ⟨observations, hobservations, h⟩ := Option.bind_eq_some_iff.mp h
    obtain ⟨events, hevents, h⟩ := Option.bind_eq_some_iff.mp h
    split at h
    · obtain rfl := Option.some.inj h
      unfold readSubmittedRuntimeObservations at hobservations
      split at hobservations
      · obtain rfl := Option.some.inj hobservations
        obtain ⟨normalized, hnormalized, hflatten⟩ := Option.bind_eq_some_iff.mp hevents
        obtain rfl := mapM_normalize hnormalized
        have hwire := readSubmitted_starts hstarts
        split at hflatten
        · cases hflatten
        · rename_i hall
          refine ⟨(Option.some.inj hflatten).symm, hwire, rfl, fun hmarked event hevent => ?_⟩
          have hsidecars : (decide (starts.length > 0) || decide (queue.runtimeObservations.length > 0)) = true := by
            have hlength : starts.length = queue.toolCallStarts.length := by
              rw [← List.length_map (f := Prod.fst), hwire, List.length_map]
            rw [Bool.or_eq_true, decide_eq_true_eq, decide_eq_true_eq, hlength]
            exact hmarked.imp List.length_pos_iff.mpr List.length_pos_iff.mpr
          rw [hsidecars, Bool.true_and, Bool.not_eq_true', Bool.not_eq_false, List.all_eq_true] at hall
          exact of_decide_eq_true (hall _ (List.mem_map_of_mem hevent))
      · cases hobservations
    · cases h

end

/-! ## Where everything lies -/

/-- The queue is what was enqueued between the two places. -/
def Spans (g : EventQueue ε ω) (start last : Nat) (queue : EventQueue ε ω) : Prop :=
  LiesAt g start queue ∧ start + queue.events.length = last

theorem Spans.grow {g : EventQueue ε ω} {start last : Nat} (h : Spans g start last queue)
    (new : EventQueue ε ω) : Spans (g.join new) start last queue := ⟨h.1.grow new, h.2⟩

theorem Spans.join {g : EventQueue ε ω} {start middle last : Nat} {a b : EventQueue ε ω} (ha : Spans g start middle a)
    (hb : Spans g middle last b) : Spans g start last (a.join b) := by
  obtain ⟨ha, rfl⟩ := ha
  obtain ⟨hb, rfl⟩ := hb
  exact ⟨ha.join hb, by rw [length_join, Nat.add_assoc]⟩

def sentEvents (committed : List (CommittedAppend ε ω)) : List ε := committed.flatMap fun commit => commit.queue.events

theorem sentEvents_snoc (committed : List (CommittedAppend ε ω)) (commit : CommittedAppend ε ω) :
    sentEvents (committed ++ [commit]) = sentEvents committed ++ commit.queue.events := by
  simp only [sentEvents, List.flatMap_append, List.flatMap_cons, List.flatMap_nil, List.append_nil]

structure InOrder (ops : EventOps ε ω) (g : EventQueue ε ω) (committed : List (CommittedAppend ε ω)) : Prop where
  sent : sentEvents committed <+: g.events
  placed : ∀ before commit later, committed = before ++ commit :: later →
    LiesAt g (sentEvents before).length commit.queue ∧ Requests ops commit.queue commit.request

section
variable {ops : EventOps ε ω} {g : EventQueue ε ω} {committed : List (CommittedAppend ε ω)}

theorem InOrder.grow (h : InOrder ops g committed) (new : EventQueue ε ω) : InOrder ops (g.join new) committed where
  sent := h.sent.trans (List.prefix_append ..)
  placed := fun before commit later heq => ⟨(h.placed before commit later heq).1.grow new, (h.placed before commit later heq).2⟩

theorem InOrder.snoc (h : InOrder ops g committed) {commit : CommittedAppend ε ω}
    (hplace : LiesAt g (sentEvents committed).length commit.queue) (hrequest : Requests ops commit.queue commit.request) :
    InOrder ops g (committed ++ [commit]) where
  sent := by
    obtain ⟨rest, hrest⟩ := h.sent
    obtain ⟨more, hmore⟩ := hplace.events
    rw [← hrest, List.drop_left] at hmore
    exact ⟨more, by rw [sentEvents_snoc, List.append_assoc, hmore, hrest]⟩
  placed := by
    intro before last later heq
    rcases List.eq_nil_or_concat later with rfl | ⟨later, newest, rfl⟩
    · obtain ⟨rfl, hlast⟩ := List.append_inj' heq rfl
      obtain rfl := (List.cons.inj hlast).1
      exact ⟨hplace, hrequest⟩
    · rw [List.concat_eq_append, ← List.cons_append, ← List.append_assoc] at heq
      obtain ⟨heq, -⟩ := List.append_inj' heq rfl
      exact h.placed before last later heq

end

/-! ## What a flush holds -/

def FlushPhase.queued : FlushPhase ε ω → EventQueue ε ω
  | .appending pass _ => pass.queued
  | .resumed locals _ => locals.queued
  | .finished queued _ | .threw queued => queued

def answeredLength (pass : BatchPass ε ω) : AppendAnswer → Nat
  | .committed _ => (pass.batches.head?.getD []).length
  | .waiting | .failed _ => 0

section
variable (ops : EventOps ε ω)

/-- Its batches were cut up once, so they can be again. -/
def Sized (events : List ε) : Prop := ∀ event ∈ events, (ops.jsonByteLength event).isSome = true

structure PassAt (g : EventQueue ε ω) (start last : Nat) (pass : BatchPass ε ω) : Prop where
  spans : Spans g start last pass.input
  cut : ∃ done, pass.input.events = done ++ pass.batches.flatten ∧ done.length = pass.batchStartIndex
  sized : Sized ops pass.input.events

/-- The flush took the queue between `first` and `last`, and what was sent goes up to `sent`. -/
def PhaseAt (g : EventQueue ε ω) (first last sent : Nat) : FlushPhase ε ω → Prop
  | .appending pass answer => ∃ start, PassAt ops g start last pass ∧ start + pass.batchStartIndex + answeredLength pass answer = sent
  | .resumed _ rest => Spans g sent last rest ∧ Sized ops rest.events
  | .finished _ (.flushed _) => sent = last
  | .finished _ (.stopped ..) => True
  | .finished _ (.retryScheduled _ rest ..) => Spans g sent last rest
  | .threw _ => sent = first

end

section
variable {config : QueueConfig} {ops : EventOps ε ω} {g : EventQueue ε ω} {first last sent start : Nat}

variable {pass : BatchPass ε ω}

theorem PassAt.grow (h : PassAt ops g start last pass) (new : EventQueue ε ω) :
    PassAt ops (g.join new) start last pass := ⟨h.spans.grow new, h.cut, h.sized⟩

theorem PhaseAt.grow {phase : FlushPhase ε ω} (h : PhaseAt ops g first last sent phase) (new : EventQueue ε ω) :
    PhaseAt ops (g.join new) first last sent phase := by
  cases phase with
  | appending pass answer => exact h.imp fun start hstart => ⟨hstart.1.grow new, hstart.2⟩
  | resumed locals rest => exact ⟨h.1.grow new, h.2⟩
  | finished queued result =>
    cases result with
    | flushed | stopped => exact h
    | retryScheduled => exact Spans.grow h new
  | threw queued => exact h

theorem PassAt.remaining (h : PassAt ops g start last pass) :
    Spans g (start + pass.batchStartIndex) last (pass.input.slice pass.batchStartIndex pass.batches.flatten) ∧
      Sized ops pass.batches.flatten := by
  obtain ⟨⟨hplace, hlast⟩, ⟨done, hcut, hdone⟩, hsized⟩ := h
  refine ⟨⟨?_, ?_⟩, fun event hevent => hsized event ?_⟩
  · rw [← hdone]
    exact hplace.slice (by rw [hcut, List.append_nil])
  · rw [hcut, List.length_append] at hlast
    show _ + pass.batches.flatten.length = last
    omega
  · rw [hcut]
    exact List.mem_append_right done hevent

theorem PassAt.batch (h : PassAt ops g start last pass) {batch : List ε} (hhead : pass.batches.head? = some batch) :
    LiesAt g (start + pass.batchStartIndex) (passQueue pass batch) := by
  obtain ⟨⟨hplace, -⟩, ⟨done, hcut, hdone⟩, -⟩ := h
  obtain ⟨rest, hrest⟩ := List.head?_eq_some_iff.mp hhead
  have hwhole : pass.input.events = done ++ (batch ++ rest.flatten) := by rw [hcut, hrest, List.flatten_cons]
  rw [passQueue, ← hdone]
  exact hplace.slice hwhole

theorem PassAt.tail (h : PassAt ops g start last pass) {batch : List ε} (hhead : pass.batches.head? = some batch)
    (cursors : RunCursors) :
    PassAt ops g start last { pass with cursors, batches := pass.batches.tail, batchStartIndex := pass.batchStartIndex + batch.length } := by
  obtain ⟨done, hcut, hdone⟩ := h.cut
  obtain ⟨rest, hrest⟩ := List.head?_eq_some_iff.mp hhead
  refine ⟨h.spans, ⟨done ++ batch, ?_, ?_⟩, h.sized⟩
  · rw [hcut, hrest, List.flatten_cons, List.append_assoc]
    rfl
  · rw [List.length_append, hdone]

variable {aborted : List AbortSignalId}

theorem phaseAt_nextBatch (h : PassAt ops g start last pass)
    (hsent : start + pass.batchStartIndex = sent)
    (habort : isAborted aborted pass.abortSignal = true → pass.batches ≠ [] → sent = first) :
    PhaseAt ops g first last sent (nextBatch config ops aborted pass) := by
  unfold nextBatch
  split
  · rename_i hnil
    have hrest := h.remaining.1.2
    rw [hnil] at hrest
    exact hsent.symm.trans hrest
  · rename_i hcons
    split
    · rename_i hsignal
      exact habort hsignal (by rw [hcons]; exact List.cons_ne_nil _ _)
    · split
      · exact ⟨start, h, hsent⟩
      · exact ⟨start, h, hsent⟩

theorem phaseAt_flushBatches {locals : FlushLocals ε ω} {input : EventQueue ε ω}
    (h : Spans g sent last input) (habort : isAborted aborted locals.abortSignal = true → sent = first)
    (hsized : Sized ops input.events ∨ sent = first) :
    PhaseAt ops g first last sent (flushConversationRunEventBatches config ops aborted locals input) := by
  unfold flushConversationRunEventBatches
  dsimp only
  split
  · rename_i hnone
    refine hsized.elim (fun hsized => ?_) id
    rw [buildConversationRunEventBatches, ← Option.not_isSome_iff_eq_none] at hnone
    exact absurd ((batchesFrom_isSome ops).mpr hsized) hnone
  · rename_i batches hbatches
    have hflatten := (batchesFrom_flatten ops hbatches).1
    refine phaseAt_nextBatch ⟨h, ⟨[], hflatten.symm, rfl⟩, ?_⟩ rfl fun hsignal _ => habort hsignal
    exact (batchesFrom_isSome ops).mp (Option.isSome_iff_exists.mpr ⟨batches, hbatches⟩)

theorem phaseAt_flushQueue {locals : FlushLocals ε ω} {pending : EventQueue ε ω}
    (h : Spans g sent last pending) (habort : isAborted aborted locals.abortSignal = true → sent = first)
    (hsized : Sized ops pending.events ∨ sent = first) :
    PhaseAt ops g first last sent (flushConversationRunEventQueue config ops aborted locals pending) := by
  unfold flushConversationRunEventQueue
  split
  · exact phaseAt_flushBatches h habort hsized
  · rename_i hempty
    have hlast := h.2
    show sent = last
    omega

theorem phaseAt_recover {error : AppendFailure} {batch : List ε} {remaining : EventQueue ε ω}
    (h : Spans g sent last remaining) (hsized : Sized ops remaining.events) :
    PhaseAt ops g first last sent (recoverConversationRunAppendExecution config ops error pass batch remaining {}) := by
  unfold recoverConversationRunAppendExecution
  rw [join_empty]
  split
  · exact ⟨h, hsized⟩
  · trivial
  · exact h

theorem queued_nextBatch (aborted : List AbortSignalId) (pass : BatchPass ε ω) :
    (nextBatch config ops aborted pass).queued = pass.queued := by
  unfold nextBatch
  split
  · rfl
  · split
    · rfl
    · split <;> rfl

theorem queued_flushQueue (aborted : List AbortSignalId) (locals : FlushLocals ε ω) (pending : EventQueue ε ω) :
    (flushConversationRunEventQueue config ops aborted locals pending).queued = locals.queued := by
  unfold flushConversationRunEventQueue
  split
  · unfold flushConversationRunEventBatches
    dsimp only
    split
    · rfl
    · exact queued_nextBatch ..
  · rfl

theorem queued_recover (error : AppendFailure) (pass : BatchPass ε ω) (batch : List ε) (remaining pending : EventQueue ε ω) :
    (recoverConversationRunAppendExecution config ops error pass batch remaining pending).queued = pass.queued := by
  unfold recoverConversationRunAppendExecution
  split <;> rfl

end

/-! ## The invariant -/

def QueueWorld.isLive (w : QueueWorld ε ω) : Prop := w.controller.disabled = false ∧ w.controller.disposed = false

def QueueWorld.sent (w : QueueWorld ε ω) : Nat := (sentEvents w.committed).length

/-- What is pending spans the end of what was enqueued, from `start` on. -/
def QueueWorld.PendingFrom (w : QueueWorld ε ω) (start : Nat) : Prop :=
  w.isLive → Spans w.enqueued start w.enqueued.events.length w.controller.pending

structure QueueInv (ops : EventOps ε ω) (w : QueueWorld ε ω) : Prop where
  marked : MarkedInside w.enqueued
  inOrder : InOrder ops w.enqueued w.committed
  stopped : w.controller.disposed = true → w.controller.disabled = true
  tail : w.flushTail = false → w.running = none
  waiting : w.waiting ≠ [] → w.flushTail = true
  idle : w.running = none → w.PendingFrom w.sent
  running : ∀ phase, w.running = some phase → ∃ first last, Spans w.enqueued first last phase.queued ∧
    PhaseAt ops w.enqueued first last w.sent phase ∧ w.PendingFrom last

def initialWorld (cursors endpoint : RunCursors) : QueueWorld ε ω := { controller := { cursors }, endpoint }

theorem queueInv_initial (ops : EventOps ε ω) (cursors endpoint : RunCursors) : QueueInv ops (initialWorld cursors endpoint) where
  marked := ⟨nofun, nofun⟩
  inOrder := ⟨List.nil_prefix, fun before _ _ heq => by cases before <;> cases heq⟩
  stopped := nofun
  tail := fun _ => rfl
  waiting := fun h => absurd rfl h
  idle := fun _ _ => ⟨liesAt_empty _ _, rfl⟩
  running := nofun

/-- A flush that goes on after a signal fired throws, when there is more to send; it should not if a part of it is committed. -/
def throwsMidway (w : QueueWorld ε ω) (action : QueueAction ε ω) : Bool :=
  match action, w.running with
  | .continueAppend, some (.appending pass (.committed _)) => isAborted w.aborted pass.abortSignal && !pass.batches.tail.isEmpty
  | .continueAppend, some (.appending pass (.failed _)) =>
    isAborted w.aborted pass.abortSignal && pass.batches.flatten.length != pass.queued.events.length
  | .continueFlush, some (.resumed locals rest) =>
    isAborted w.aborted locals.abortSignal && rest.events.length != locals.queued.events.length
  | _, _ => false

section
variable {config : QueueConfig} {ops : EventOps ε ω} {w w' : QueueWorld ε ω}

theorem startFlush_cases (hinv : QueueInv ops w) (hidle : w.running = none) (abortSignal : Option AbortSignalId) :
    w.startFlush config ops abortSignal = w ∨ ∃ phase, Spans w.enqueued w.sent w.enqueued.events.length phase.queued ∧
      PhaseAt ops w.enqueued w.sent w.enqueued.events.length w.sent phase ∧
      w.startFlush config ops abortSignal = { w with controller := { w.controller with pending := {} }, running := some phase } := by
  unfold QueueWorld.startFlush QueueController.flushOnce
  split
  · rename_i hnone
    exact .inl rfl
  · rename_i controller phase hstart
    split at hstart
    · cases hstart
    · rename_i hguard
      simp only [Bool.or_eq_true, decide_eq_true_eq, not_or, Bool.not_eq_true] at hguard
      obtain ⟨⟨hsignal, hdisabled⟩, -⟩ := hguard
      obtain ⟨rfl, rfl⟩ := Prod.mk.inj (Option.some.inj hstart)
      have hdisposed : w.controller.disposed = false :=
        Bool.eq_false_iff.mpr fun h => absurd (hinv.stopped h) (Bool.eq_false_iff.mp hdisabled)
      have hspans := hinv.idle hidle ⟨hdisabled, hdisposed⟩
      refine .inr ⟨_, ?_, ?_, rfl⟩
      · rw [queued_flushQueue]
        exact hspans
      · exact phaseAt_flushQueue hspans (fun _ => rfl) (.inr rfl)

theorem startFlush_tail (w : QueueWorld ε ω) (abortSignal : Option AbortSignalId) :
    { w.startFlush config ops abortSignal with flushTail := true } =
      QueueWorld.startFlush config ops { w with flushTail := true } abortSignal := by
  unfold QueueWorld.startFlush
  dsimp only
  split <;> rfl

theorem queueInv_startFlush (hinv : QueueInv ops w) (hidle : w.running = none) (htail : w.flushTail = true)
    (abortSignal : Option AbortSignalId) : QueueInv ops (w.startFlush config ops abortSignal) := by
  rcases startFlush_cases hinv hidle abortSignal with heq | ⟨phase, hspans, hphase, heq⟩
  · rw [heq]
    exact hinv
  · rw [heq]
    refine ⟨hinv.marked, hinv.inOrder, hinv.stopped, fun h => absurd (htail.symm.trans h) nofun, hinv.waiting, nofun,
      fun current hcurrent => ?_⟩
    obtain rfl := Option.some.inj hcurrent
    exact ⟨w.sent, w.enqueued.events.length, hspans, hphase, fun _ => ⟨liesAt_empty _ _, rfl⟩⟩

variable {pass : BatchPass ε ω}

theorem inFlight_eq {batch : List ε} {request : AppendRequest ε ω}
    (h : w.inFlight config ops = some (pass, batch, request)) :
    w.running = some (.appending pass .waiting) ∧ pass.batches.head? = some batch ∧ passRequest config ops pass batch = some request := by
  unfold QueueWorld.inFlight at h
  split at h
  · rename_i current hrunning
    obtain ⟨head, hhead, h⟩ := Option.bind_eq_some_iff.mp h
    obtain ⟨sent, hsent, h⟩ := Option.bind_eq_some_iff.mp h
    simp only [Option.some.injEq, Prod.mk.injEq] at h
    obtain ⟨rfl, rfl, rfl⟩ := h
    exact ⟨hrunning, hhead, hsent⟩
  · cases h

theorem queueInv_goOn (hinv : QueueInv ops w) {current phase : FlushPhase ε ω} (hrunning : w.running = some current)
    (h : ∃ first last, Spans w.enqueued first last phase.queued ∧ PhaseAt ops w.enqueued first last w.sent phase ∧ w.PendingFrom last) :
    QueueInv ops { w with running := some phase } := by
  refine ⟨hinv.marked, hinv.inOrder, hinv.stopped, fun htail => ?_, hinv.waiting, nofun, fun next hnext => ?_⟩
  · exact absurd ((hinv.tail htail).symm.trans hrunning) nofun
  · obtain rfl := Option.some.inj hnext
    exact h

theorem queueInv_enqueue (hinv : QueueInv ops w) (hmarked : MarkedInside queue) :
    QueueInv ops { w with controller := w.controller.enqueue queue, enqueued := w.enqueued.join queue } := by
  have hpending : ∀ start, w.PendingFrom start →
      QueueWorld.PendingFrom { w with controller := w.controller.enqueue queue, enqueued := w.enqueued.join queue } start := by
    intro start hpending hlive
    unfold QueueController.enqueue at hlive ⊢
    split at hlive
    · rename_i hguard
      rw [if_pos hguard]
      have hdisabled : w.controller.disabled = false := hlive.1
      have hdisposed : w.controller.disposed = false := hlive.2
      rw [hdisabled, hdisposed, Bool.false_or, Bool.false_or, decide_eq_true_eq] at hguard
      obtain ⟨hplace, hlast⟩ := (hpending ⟨hdisabled, hdisposed⟩).grow queue
      exact ⟨hplace, by rw [length_join, hguard]; exact hlast⟩
    · rename_i hguard
      rw [if_neg hguard]
      exact ((hpending hlive).grow queue).join ⟨liesAt_new hinv.marked hmarked, (length_join ..).symm⟩
  refine ⟨hinv.marked.join hmarked, hinv.inOrder.grow queue, ?_, hinv.tail, hinv.waiting, fun hidle => hpending _ (hinv.idle hidle), ?_⟩
  · intro hdisposed
    unfold QueueController.enqueue at hdisposed ⊢
    split
    · rename_i hguard
      rw [if_pos hguard] at hdisposed
      exact hinv.stopped hdisposed
    · rename_i hguard
      rw [if_neg hguard] at hdisposed
      exact hinv.stopped hdisposed
  · intro phase hphase
    obtain ⟨first, last, hspans, hat, hrest⟩ := hinv.running phase hphase
    exact ⟨first, last, hspans.grow queue, hat.grow queue, hpending last hrest⟩

theorem queueInv_commit (hinv : QueueInv ops w) {cursors : RunCursors} {batch : List ε}
    {request : AppendRequest ε ω} (hflight : w.inFlight config ops = some (pass, batch, request)) :
    QueueInv ops { w with
      running := some (.appending pass (.committed cursors))
      endpoint := cursors
      committed := w.committed ++ [⟨passQueue pass batch, request⟩] } := by
  obtain ⟨hrunning, hhead, hrequest⟩ := inFlight_eq hflight
  obtain ⟨first, last, hspans, ⟨start, hpass, hsent⟩, hrest⟩ := hinv.running _ hrunning
  have hplace : LiesAt w.enqueued w.sent (passQueue pass batch) := by
    rw [← hsent]
    exact hpass.batch hhead
  refine ⟨hinv.marked, hinv.inOrder.snoc hplace (requests_of_appendRequest hrequest), hinv.stopped, ?_, hinv.waiting, nofun, ?_⟩
  · intro htail
    exact absurd ((hinv.tail htail).symm.trans hrunning) nofun
  · intro phase hphase
    obtain rfl := Option.some.inj hphase
    refine ⟨first, last, hspans, ⟨start, hpass, ?_⟩, hrest⟩
    show _ + (pass.batches.head?.getD []).length = (sentEvents (w.committed ++ [_])).length
    rw [hhead, sentEvents_snoc, List.length_append]
    exact congrArg (· + batch.length) hsent

theorem queueInv_continueAppend (hinv : QueueInv ops w) {answer : AppendAnswer}
    (hrunning : w.running = some (.appending pass answer)) (hsafe : throwsMidway w .continueAppend = false) {phase : FlushPhase ε ω}
    (hphase : continueAppend config ops w.aborted pass answer = some phase) : QueueInv ops { w with running := some phase } := by
  obtain ⟨first, last, hspans, ⟨start, hpass, hsent⟩, hrest⟩ := hinv.running _ hrunning
  refine queueInv_goOn hinv hrunning ?_
  unfold throwsMidway at hsafe
  rw [hrunning] at hsafe
  cases answer with
  | waiting => cases hphase
  | committed cursors =>
    obtain ⟨batch, hhead, hnext⟩ := Option.bind_eq_some_iff.mp hphase
    obtain rfl := Option.some.inj hnext
    refine ⟨first, last, ?_, phaseAt_nextBatch (hpass.tail hhead cursors) ?_ ?_, hrest⟩
    · rw [queued_nextBatch]
      exact hspans
    · rw [← hsent, answeredLength, hhead, Nat.add_assoc]
      rfl
    · intro hsignal hmore
      have hsignal' : isAborted w.aborted pass.abortSignal = true := hsignal
      dsimp only at hsafe hmore
      rw [hsignal', Bool.true_and, Bool.not_eq_false', List.isEmpty_iff] at hsafe
      exact absurd hsafe hmore
  | failed error =>
    obtain ⟨batch, hhead, hnext⟩ := Option.bind_eq_some_iff.mp hphase
    split at hnext
    · rename_i hsignal
      obtain rfl := Option.some.inj hnext
      refine ⟨first, last, hspans, ?_, hrest⟩
      dsimp only at hsafe
      rw [hsignal, Bool.true_and, bne_eq_false_iff_eq] at hsafe
      have hremaining : start + pass.batchStartIndex + pass.batches.flatten.length = last := hpass.remaining.1.2
      have hqueued : first + pass.queued.events.length = last := hspans.2
      show w.sent = first
      rw [answeredLength] at hsent
      omega
    · obtain rfl := Option.some.inj hnext
      have hremaining := hpass.remaining
      rw [show start + pass.batchStartIndex = w.sent from hsent] at hremaining
      refine ⟨first, last, ?_, phaseAt_recover hremaining.1 hremaining.2, hrest⟩
      rw [queued_recover]
      exact hspans

theorem queueInv_continueFlush (hinv : QueueInv ops w) {locals : FlushLocals ε ω} {rest : EventQueue ε ω}
    (hrunning : w.running = some (.resumed locals rest)) (hsafe : throwsMidway w .continueFlush = false) :
    QueueInv ops { w with running := some (flushConversationRunEventQueue config ops w.aborted locals rest) } := by
  obtain ⟨first, last, hspans, ⟨hleft, hsized⟩, hrest⟩ := hinv.running _ hrunning
  refine queueInv_goOn hinv hrunning ⟨first, last, ?_, phaseAt_flushQueue hleft (fun hsignal => ?_) (.inl hsized), hrest⟩
  · rw [queued_flushQueue]
    exact hspans
  · unfold throwsMidway at hsafe
    rw [hrunning] at hsafe
    dsimp only at hsafe
    rw [hsignal, Bool.true_and, bne_eq_false_iff_eq] at hsafe
    have hqueued : first + locals.queued.events.length = last := hspans.2
    have hlast := hleft.2
    omega

theorem queueInv_settle (hinv : QueueInv ops w) {controller : QueueController ε ω}
    (hstopped : controller.disposed = true → controller.disabled = true)
    (hpending : controller.disabled = false → controller.disposed = false →
      Spans w.enqueued w.sent w.enqueued.events.length controller.pending) :
    QueueInv ops { w with controller, running := none } :=
  ⟨hinv.marked, hinv.inOrder, hstopped, fun _ => rfl, hinv.waiting, fun _ hlive => hpending hlive.1 hlive.2, nofun⟩

theorem queueInv_settleFlush (hinv : QueueInv ops w) {queued : EventQueue ε ω} {result : QueueFlushed ε ω}
    (hrunning : w.running = some (.finished queued result)) :
    QueueInv ops { w with controller := w.controller.settleFlush result, running := none } := by
  obtain ⟨first, last, -, hat, hrest⟩ := hinv.running _ hrunning
  unfold QueueController.settleFlush
  split
  · rename_i hdisposed
    exact queueInv_settle hinv hinv.stopped fun _ hlive => absurd (hdisposed.symm.trans hlive) nofun
  · rename_i hdisposed
    rw [Bool.not_eq_true] at hdisposed
    cases result with
    | flushed cursors =>
      have hsent : w.sent = last := hat
      refine queueInv_settle hinv (fun h => hinv.stopped h) fun hlive _ => ?_
      rw [hsent]
      exact hrest ⟨hlive, hdisposed⟩
    | stopped cursors reason => exact queueInv_settle hinv (fun _ => rfl) nofun
    | retryScheduled cursors pending failures message cause =>
      have hleft : Spans w.enqueued w.sent last pending := hat
      exact queueInv_settle hinv (fun h => hinv.stopped h) fun hlive _ => hleft.join (hrest ⟨hlive, hdisposed⟩)

theorem queueInv_requeue (hinv : QueueInv ops w) {queued : EventQueue ε ω} (hrunning : w.running = some (.threw queued)) :
    QueueInv ops { w with controller := w.controller.requeue queued, running := none } := by
  obtain ⟨first, last, hspans, hat, hrest⟩ := hinv.running _ hrunning
  have hsent : w.sent = first := hat
  unfold QueueController.requeue
  split
  · rename_i hdisposed
    exact queueInv_settle hinv hinv.stopped fun _ hlive => absurd (hdisposed.symm.trans hlive) nofun
  · rename_i hdisposed
    rw [Bool.not_eq_true] at hdisposed
    refine queueInv_settle hinv hinv.stopped fun hlive _ => ?_
    rw [hsent]
    exact hspans.join (hrest ⟨hlive, hdisposed⟩)

theorem queueInv_step (hinv : QueueInv ops w) {action : QueueAction ε ω} (hstep : w.step config ops action = some w')
    (hsafe : throwsMidway w action = false) : QueueInv ops w' := by
  cases action with
  | enqueue queue =>
    unfold QueueWorld.step at hstep
    dsimp only at hstep
    split at hstep
    · rename_i hmarked
      obtain rfl := Option.some.inj hstep
      exact queueInv_enqueue hinv (markedInside_iff.mp hmarked)
    · cases hstep
  | flush abortSignal =>
    obtain rfl := Option.some.inj hstep
    split
    · rename_i htail
      exact ⟨hinv.marked, hinv.inOrder, hinv.stopped, hinv.tail, fun _ => htail, hinv.idle, hinv.running⟩
    · rename_i htail
      rw [Bool.not_eq_true] at htail
      have hidle := hinv.tail htail
      have hwaits : QueueInv ops { w with flushTail := true } :=
        ⟨hinv.marked, hinv.inOrder, hinv.stopped, fun _ => hidle, fun _ => rfl, hinv.idle, hinv.running⟩
      rw [startFlush_tail]
      exact queueInv_startFlush hwaits hidle rfl abortSignal
  | abort abortSignal =>
    obtain rfl := Option.some.inj hstep
    exact ⟨hinv.marked, hinv.inOrder, hinv.stopped, hinv.tail, hinv.waiting, hinv.idle, hinv.running⟩
  | dispose =>
    obtain rfl := Option.some.inj hstep
    refine ⟨hinv.marked, hinv.inOrder, fun _ => rfl, hinv.tail, hinv.waiting, fun _ => nofun, fun phase hphase => ?_⟩
    obtain ⟨first, last, hspans, hat, -⟩ := hinv.running phase hphase
    exact ⟨first, last, hspans, hat, nofun⟩
  | commit cursors =>
    obtain ⟨⟨pass, batch, request⟩, hflight, hcommit⟩ := Option.bind_eq_some_iff.mp hstep
    dsimp only at hcommit
    split at hcommit
    · obtain rfl := Option.some.inj hcommit
      exact queueInv_commit hinv hflight
    · cases hcommit
  | fail error =>
    obtain ⟨⟨pass, batch, request⟩, hflight, hfail⟩ := Option.bind_eq_some_iff.mp hstep
    dsimp only at hfail
    split at hfail
    · obtain rfl := Option.some.inj hfail
      have hrunning := (inFlight_eq hflight).1
      have hat := hinv.running _ hrunning
      exact queueInv_goOn hinv hrunning hat
    · cases hfail
  | continueAppend =>
    unfold QueueWorld.step at hstep
    dsimp only at hstep
    split at hstep
    · rename_i pass answer hrunning
      obtain ⟨phase, hphase, rfl⟩ := Option.map_eq_some_iff.mp hstep
      exact queueInv_continueAppend hinv hrunning hsafe hphase
    · cases hstep
  | continueFlush =>
    unfold QueueWorld.step at hstep
    dsimp only at hstep
    split at hstep
    · rename_i locals rest hrunning
      obtain rfl := Option.some.inj hstep
      exact queueInv_continueFlush hinv hrunning hsafe
    · cases hstep
  | settle =>
    unfold QueueWorld.step at hstep
    dsimp only at hstep
    split at hstep
    · rename_i queued result hrunning
      obtain rfl := Option.some.inj hstep
      exact queueInv_settleFlush hinv hrunning
    · rename_i queued hrunning
      obtain rfl := Option.some.inj hstep
      exact queueInv_requeue hinv hrunning
    · cases hstep
  | startNext =>
    unfold QueueWorld.step at hstep
    dsimp only at hstep
    split at hstep
    · rename_i abortSignal waiting hidle hwaiting
      obtain rfl := Option.some.inj hstep
      have htail := hinv.waiting (by rw [hwaiting]; exact List.cons_ne_nil _ _)
      have hwaits : QueueInv ops { w with waiting } :=
        ⟨hinv.marked, hinv.inOrder, hinv.stopped, hinv.tail, fun _ => htail, hinv.idle, hinv.running⟩
      exact queueInv_startFlush hwaits hidle htail abortSignal
    · cases hstep
  | clearTail =>
    unfold QueueWorld.step at hstep
    dsimp only at hstep
    split at hstep
    · rename_i hidle
      rw [Bool.and_eq_true, Option.isNone_iff_eq_none, List.isEmpty_iff] at hidle
      obtain rfl := Option.some.inj hstep
      exact ⟨hinv.marked, hinv.inOrder, hinv.stopped, fun _ => hidle.1, fun h => absurd hidle.2 h, hinv.idle, hinv.running⟩
    · cases hstep

end

/-! ## Retries leave work -/

def PhaseLeaves : FlushPhase ε ω → Prop
  | .appending pass _ => ∀ batch ∈ pass.batches, batch ≠ []
  | .resumed .. | .threw _ => True
  | .finished _ result => result.leavesWork = true

section
variable {config : QueueConfig} {ops : EventOps ε ω}

theorem leaves_nextBatch {aborted : List AbortSignalId} {pass : BatchPass ε ω} (h : ∀ batch ∈ pass.batches, batch ≠ []) :
    PhaseLeaves (nextBatch config ops aborted pass) := by
  unfold nextBatch
  split
  · rfl
  · split
    · trivial
    · split <;> exact h

theorem leaves_flushQueue (aborted : List AbortSignalId) (locals : FlushLocals ε ω) (pending : EventQueue ε ω) :
    PhaseLeaves (flushConversationRunEventQueue config ops aborted locals pending) := by
  unfold flushConversationRunEventQueue
  split
  · unfold flushConversationRunEventBatches
    dsimp only
    split
    · trivial
    · rename_i batches hbatches
      exact leaves_nextBatch (batchesFrom_flatten ops hbatches).2
  · rfl

theorem leaves_continueAppend {aborted : List AbortSignalId} {pass : BatchPass ε ω} {answer : AppendAnswer} {phase : FlushPhase ε ω}
    (h : ∀ batch ∈ pass.batches, batch ≠ []) (hphase : continueAppend config ops aborted pass answer = some phase) :
    PhaseLeaves phase := by
  cases answer with
  | waiting => cases hphase
  | committed cursors =>
    obtain ⟨batch, -, hnext⟩ := Option.bind_eq_some_iff.mp hphase
    obtain rfl := Option.some.inj hnext
    exact leaves_nextBatch fun batch hbatch => h batch (List.mem_of_mem_tail hbatch)
  | failed error =>
    obtain ⟨batch, hhead, hnext⟩ := Option.bind_eq_some_iff.mp hphase
    split at hnext
    · obtain rfl := Option.some.inj hnext
      trivial
    · obtain rfl := Option.some.inj hnext
      obtain ⟨rest, hrest⟩ := List.head?_eq_some_iff.mp hhead
      have hpos : 0 < pass.batches.flatten.length := by
        have hbatch := List.length_pos_iff.mpr (h batch (by rw [hrest]; exact List.mem_cons_self))
        rw [hrest, List.flatten_cons, List.length_append]
        omega
      unfold recoverConversationRunAppendExecution
      rw [join_empty]
      split
      · trivial
      · rfl
      · exact Bool.and_eq_true_iff.mpr ⟨decide_eq_true hpos, decide_eq_true (Nat.succ_pos _)⟩

theorem leaves_startFlush {w : QueueWorld ε ω} (h : ∀ phase, w.running = some phase → PhaseLeaves phase)
    (abortSignal : Option AbortSignalId) : ∀ phase, (w.startFlush config ops abortSignal).running = some phase → PhaseLeaves phase := by
  unfold QueueWorld.startFlush QueueController.flushOnce
  intro phase hphase
  split at hphase
  · exact h phase hphase
  · rename_i controller started hstart
    split at hstart
    · cases hstart
    · obtain ⟨-, rfl⟩ := Prod.mk.inj (Option.some.inj hstart)
      obtain rfl := Option.some.inj hphase
      exact leaves_flushQueue ..

theorem leaves_step {w w' : QueueWorld ε ω} {action : QueueAction ε ω} (h : ∀ phase, w.running = some phase → PhaseLeaves phase)
    (hstep : w.step config ops action = some w') : ∀ phase, w'.running = some phase → PhaseLeaves phase := by
  cases action with
  | enqueue queue =>
    unfold QueueWorld.step at hstep
    dsimp only at hstep
    split at hstep
    · obtain rfl := Option.some.inj hstep
      exact h
    · cases hstep
  | flush abortSignal =>
    obtain rfl := Option.some.inj hstep
    split
    · exact h
    · exact leaves_startFlush h abortSignal
  | abort | dispose =>
    obtain rfl := Option.some.inj hstep
    exact h
  | commit | fail =>
    obtain ⟨⟨pass, batch, request⟩, hflight, hanswer⟩ := Option.bind_eq_some_iff.mp hstep
    dsimp only at hanswer
    split at hanswer
    · obtain rfl := Option.some.inj hanswer
      intro phase hphase
      obtain rfl := Option.some.inj hphase
      have hbatches := h _ (inFlight_eq hflight).1
      exact hbatches
    · cases hanswer
  | continueAppend =>
    unfold QueueWorld.step at hstep
    dsimp only at hstep
    split at hstep
    · rename_i pass answer hrunning
      obtain ⟨next, hnext, rfl⟩ := Option.map_eq_some_iff.mp hstep
      intro phase hphase
      obtain rfl := Option.some.inj hphase
      exact leaves_continueAppend (h _ hrunning) hnext
    · cases hstep
  | continueFlush =>
    unfold QueueWorld.step at hstep
    dsimp only at hstep
    split at hstep
    · obtain rfl := Option.some.inj hstep
      intro phase hphase
      obtain rfl := Option.some.inj hphase
      exact leaves_flushQueue ..
    · cases hstep
  | settle =>
    unfold QueueWorld.step at hstep
    dsimp only at hstep
    split at hstep
    all_goals first
      | obtain rfl := Option.some.inj hstep
        exact nofun
      | cases hstep
  | startNext =>
    unfold QueueWorld.step at hstep
    dsimp only at hstep
    split at hstep
    · rename_i abortSignal waiting hidle hwaiting
      obtain rfl := Option.some.inj hstep
      have hrest : ∀ phase, ({ w with waiting } : QueueWorld ε ω).running = some phase → PhaseLeaves phase := h
      exact leaves_startFlush hrest abortSignal
    · cases hstep
  | clearTail =>
    unfold QueueWorld.step at hstep
    dsimp only at hstep
    split at hstep
    · obtain rfl := Option.some.inj hstep
      exact h
    · cases hstep

/-- A flush that ends with a retry has events left and counts a failure. -/
theorem retry_leaves_work {cursors endpoint : RunCursors} {actions : List (QueueAction ε ω)} {w : QueueWorld ε ω}
    {queued : EventQueue ε ω} {result : QueueFlushed ε ω}
    (h : Lib.Run (fun w action w' => w.step config ops action = some w') (initialWorld cursors endpoint) actions w)
    (hrunning : w.running = some (.finished queued result)) : result.leavesWork = true := by
  have hleaves := h.invariant (fun w => ∀ phase, w.running = some phase → PhaseLeaves phase) (fun _ hnone => by cases hnone)
    fun _ _ _ hinv hstep => leaves_step hinv hstep
  exact hleaves _ hrunning

end

/-! ## Exactly once -/

structure CarriesRange (ops : EventOps ε ω) (g : EventQueue ε ω) (start count : Nat) (request : AppendRequest ε ω) : Prop where
  events : request.events = ((g.events.drop start).take count).flatMap (normalForm ops)
  starts : request.toolCallStarts.Perm ((selectToolCallAdmissionStartsForRange g.toolCallStarts start count).map (wireStart ops))
  observations : request.runtimeObservations.Perm (selectRuntimeObservationsForRange g.runtimeObservations start count)
  stable : request.toolCallStarts ≠ [] ∨ request.runtimeObservations ≠ [] →
    ∀ event ∈ (g.events.drop start).take count, (normalForm ops event).length = 1

/-- What the endpoint holds is the beginning of what was enqueued, what is pending is the rest. -/
structure DeliveredOnce (ops : EventOps ε ω) (w : QueueWorld ε ω) : Prop where
  stored : w.committed.flatMap (fun commit => commit.request.events) = (sentEvents w.committed).flatMap (normalForm ops)
  ordered : sentEvents w.committed <+: w.enqueued.events
  conserved : w.running = none → w.controller.disabled = false → w.controller.disposed = false →
    sentEvents w.committed ++ w.controller.pending.events = w.enqueued.events
  carried : ∀ before commit later, w.committed = before ++ commit :: later →
    CarriesRange ops w.enqueued (sentEvents before).length commit.queue.events.length commit.request

section
variable {config : QueueConfig} {ops : EventOps ε ω}

theorem carriesRange_of_requests {g : EventQueue ε ω} {start : Nat} {request : AppendRequest ε ω} (hplace : LiesAt g start queue)
    (hrequest : Requests ops queue request) : CarriesRange ops g start queue.events.length request := by
  have hevents : (g.events.drop start).take queue.events.length = queue.events := (List.prefix_iff_eq_take.mp hplace.events).symm
  refine ⟨by rw [hevents]; exact hrequest.events, ?_, ?_, ?_⟩
  · rw [hrequest.starts]
    exact hplace.starts.map _
  · rw [hrequest.observations]
    exact hplace.observations
  · rw [hevents, hrequest.starts, hrequest.observations]
    exact fun hmarked => hrequest.stable (hmarked.imp_left fun hne hnil => hne (by rw [hnil]; rfl))

theorem stored_of_placed {committed : List (CommittedAppend ε ω)} (h : ∀ commit ∈ committed, Requests ops commit.queue commit.request) :
    committed.flatMap (fun commit => commit.request.events) = (sentEvents committed).flatMap (normalForm ops) := by
  rw [sentEvents, List.flatMap_assoc]
  exact List.flatMap_congr fun commit hcommit => (h commit hcommit).events

theorem deliveredOnce_of_inv {w : QueueWorld ε ω} (hinv : QueueInv ops w) : DeliveredOnce ops w where
  stored := by
    refine stored_of_placed fun commit hcommit => ?_
    obtain ⟨before, later, heq⟩ := List.append_of_mem hcommit
    exact (hinv.inOrder.placed before commit later heq).2
  ordered := hinv.inOrder.sent
  conserved := by
    intro hidle hdisabled hdisposed
    obtain ⟨hplace, hlength⟩ := hinv.idle hidle ⟨hdisabled, hdisposed⟩
    obtain ⟨rest, hrest⟩ := hinv.inOrder.sent
    have hpending := hplace.events
    rw [← hrest, QueueWorld.sent, List.drop_left] at hpending
    have hsame : w.controller.pending.events.length = rest.length := by
      rw [← hrest, QueueWorld.sent, List.length_append] at hlength
      omega
    rw [hpending.eq_of_length hsame, hrest]
  carried := fun before commit later heq =>
    carriesRange_of_requests (hinv.inOrder.placed before commit later heq).1 (hinv.inOrder.placed before commit later heq).2

/-- As long as no flush throws for a signal after a part of it was committed, the endpoint holds what was enqueued once and
in order, with its sidecars, and a queue at rest holds all the others. -/
theorem delivered_once (config : QueueConfig) (ops : EventOps ε ω) (cursors endpoint : RunCursors) {actions : List (QueueAction ε ω)}
    {w : QueueWorld ε ω}
    (h : Lib.Run (fun w action w' => w.step config ops action = some w' ∧ throwsMidway w action = false)
      (initialWorld cursors endpoint) actions w) : DeliveredOnce ops w := by
  refine deliveredOnce_of_inv (h.invariant (QueueInv ops) (queueInv_initial ops cursors endpoint) ?_)
  exact fun _ _ _ hinv hstep => queueInv_step hinv hstep.1 hstep.2

end

/-! ## A flush that is aborted between two batches -/

def plainOps : EventOps Nat Nat where
  isPrivate _ := false
  jsonByteLength _ := some 1
  toolCallStartId event := if event = 2 then some "call" else none
  normalize event := some [event]
  modelCallCaptureIds _ := []
  isUuid _ := true
  normalizeReceiptId id := id
  requestFits _ _ _ := true
  checkMessage _ := ""

def oneAtATime : QueueConfig := { maxEventsPerBatch := 1 }

def twoEvents : EventQueue Nat Nat := { events := [1, 2], toolCallStarts := [⟨"occurrence", 1⟩], runtimeObservations := [⟨7, 0⟩] }

theorem delivered_once_two_events :
    ∃ actions w, w.committed.map (fun commit => commit.request.events) = [[1], [2]] ∧
      w.committed.map (fun commit => commit.request.toolCallStarts) = [[], [⟨"occurrence", 0⟩]] ∧
      w.running.isNone ∧ Lib.Run (fun w action w' => w.step oneAtATime plainOps action = some w' ∧ throwsMidway w action = false)
        (initialWorld ⟨0, 0⟩ ⟨0, 0⟩) actions w ∧ DeliveredOnce plainOps w := by
  have hrun : Lib.Run (fun w action w' => w.step oneAtATime plainOps action = some w' ∧ throwsMidway w action = false)
      (initialWorld ⟨0, 0⟩ ⟨0, 0⟩)
      [.enqueue twoEvents, .flush none, .commit ⟨1, 1⟩, .continueAppend, .commit ⟨2, 2⟩, .continueAppend, .settle] _ :=
    .cons ⟨rfl, rfl⟩ (.cons ⟨rfl, rfl⟩ (.cons ⟨rfl, rfl⟩ (.cons ⟨rfl, rfl⟩ (.cons ⟨rfl, rfl⟩ (.cons ⟨rfl, rfl⟩ (.cons ⟨rfl, rfl⟩ .nil))))))
  exact ⟨_, _, rfl, rfl, rfl, hrun, delivered_once oneAtATime plainOps ⟨0, 0⟩ ⟨0, 0⟩ hrun⟩

def staleCursors : AppendFailure :=
  .rejected 400 (some "External run event cursor mismatch") none (some ⟨1, 1⟩) "External run event cursor mismatch"

/-- The signal of the first flush fires after its first batch was committed: the next flush sends that batch again. -/
theorem aborted_flush_delivers_twice :
    ∃ actions w, Lib.Run (fun w action w' => w.step oneAtATime plainOps action = some w') (initialWorld ⟨0, 0⟩ ⟨0, 0⟩) actions w ∧
      w.enqueued.events = [1, 2] ∧ w.committed.map (fun commit => commit.request.events) = [[1], [1], [2]] ∧
      ¬ DeliveredOnce plainOps w := by
  have hrun : Lib.Run (fun w action w' => w.step oneAtATime plainOps action = some w') (initialWorld ⟨0, 0⟩ ⟨0, 0⟩)
      [.enqueue twoEvents, .flush (some 0), .commit ⟨1, 1⟩, .abort 0, .continueAppend, .settle, .clearTail, .flush none,
        .fail staleCursors, .continueAppend, .continueFlush, .commit ⟨2, 2⟩, .continueAppend, .commit ⟨3, 3⟩] _ :=
    .cons rfl (.cons rfl (.cons rfl (.cons rfl (.cons rfl (.cons rfl (.cons rfl (.cons rfl (.cons rfl (.cons rfl (.cons rfl
      (.cons rfl (.cons rfl (.cons rfl .nil)))))))))))))
  refine ⟨_, _, hrun, rfl, rfl, fun h => ?_⟩
  exact absurd h.ordered (by decide)

end Veryfront.Agent.Conversation
