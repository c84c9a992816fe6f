import Veryfront.Agent.Streaming.Deadlines
import Veryfront.Lib.Runs
import Mathlib.Algebra.Order.BigOperators.Group.List
import Mathlib.Algebra.Order.Ring.Int

/-!
# The time that a deadline charges

The runner resumes the wait, races the read until the race is answered, and pauses the wait before it
goes on; progress is noted while the wait is paused. The ledger keeps the intervals of waiting since
a budget was last granted, and the controller's own variables are read off it.
-/

namespace Veryfront.Agent.Streaming

open Veryfront.Lib

/-! ## The ledger -/

/-- The waits since a budget was last granted, and the start of the one under way. -/
structure WaitLedger where
  kind : Option StreamProviderDeadlineKind := none
  waits : List (Int × Int) := []
  since : Option Int := none

/-- How much of an interval lies before a time. -/
def elapsedBy (now : Int) (wait : Int × Int) : Int := max 0 (min now wait.2 - wait.1)

namespace WaitLedger

def grant (kind : Option StreamProviderDeadlineKind) (ledger : WaitLedger) : WaitLedger :=
  { ledger with kind, waits := [] }

def begin (now : Int) (kind : Option StreamProviderDeadlineKind) (ledger : WaitLedger) : WaitLedger :=
  { (if kind = ledger.kind then ledger else ledger.grant kind) with since := some now }

def finish (now : Int) (ledger : WaitLedger) : WaitLedger :=
  { ledger with waits := ledger.waits ++ (ledger.since.map fun start => (start, now)).toList, since := none }

/-- The total length of waiting up to a time, the wait under way included. -/
def total (now : Int) (ledger : WaitLedger) : Int := ((ledger.finish now).waits.map (elapsedBy now)).sum

/-- The whole lengths of the waits that are over. -/
def charged (ledger : WaitLedger) : Int := (ledger.waits.map fun wait => wait.2 - wait.1).sum

def allowance (budget : Int) (ledger : WaitLedger) : Int :=
  if ledger.waits = [] then budget else max 0 (budget - ledger.charged)

/-- When the budget runs out in the wait under way; at its start, where an earlier wait has used it up. -/
def deadline (budget : Int) (ledger : WaitLedger) : Option Int :=
  ledger.since.map fun start => start + ledger.allowance budget

end WaitLedger

/-! ## What the runner asks of the controller -/

inductive DeadlineCall (Part : Type)
  | resume (snapshot : StreamSnapshot)
  | race (read : TrackedProviderRead Part) (aborted : Bool)
  | pause
  | progress (snapshot : StreamSnapshot)
  | dispose

inductive DeadlineTurn
  | paused | racing | answered
deriving DecidableEq, Repr

structure DeadlineRun where
  controller : StreamDeadlineController
  ledger : WaitLedger := {}
  clock : Int
  turn : DeadlineTurn := .paused

namespace DeadlineRun

variable {Part : Type} (policy : StreamLifecyclePolicy)

/-- What is asked next is fixed by the turn, except that the end of the stream may come at any time. -/
def advance (run : DeadlineRun) (now : Int) : DeadlineCall Part → Option DeadlineRun
  | .dispose => some { run with controller := run.controller.dispose }
  | .resume snapshot =>
    if run.turn = .paused then
      some { run with
        controller := run.controller.resumeProviderWait policy now snapshot
        ledger := run.ledger.begin now (selectKind policy snapshot)
        turn := .racing }
    else none
  | .race read aborted =>
    if run.turn = .racing then
      match run.controller.raceProviderRead now read aborted with
      | some (_, controller) => some { run with controller, turn := .answered }
      | none => some run
    else none
  | .pause =>
    if run.turn = .answered then
      some { run with
        controller := run.controller.pauseProviderWait now
        ledger := run.ledger.finish now
        turn := .paused }
    else none
  | .progress snapshot =>
    if run.turn = .paused then
      some { run with
        controller := run.controller.noteSemanticProgress policy now snapshot
        ledger := run.ledger.grant (selectKind policy snapshot) }
    else none

def step (run : DeadlineRun) : Int × DeadlineCall Part → Option DeadlineRun
  | (now, call) =>
    if run.clock ≤ now then (run.advance policy now call).map fun run' => { run' with clock := now } else none

def Calls (attemptDeadlineMs start : Int) (calls : List (Int × DeadlineCall Part)) (run : DeadlineRun) : Prop :=
  Run (fun run call run' => run.step policy call = some run') ⟨{ attemptDeadlineMs }, {}, start, .paused⟩ calls run

/-- What ends the race before any deadline of the provider is looked at. -/
def stopped (run : DeadlineRun) (now : Int) (aborted : Bool) : Option (StreamReadRace Part) :=
  if run.controller.disposed || aborted then some .cancelled
  else if run.controller.attemptDeadlineMs ≤ now then some .attemptTimeout
  else none

def answer (run : DeadlineRun) (now : Int) (read : TrackedProviderRead Part) (aborted : Bool) : Option (StreamReadRace Part) :=
  (run.controller.raceProviderRead now read aborted).map Prod.fst

end DeadlineRun

/-! ## The controller and the ledger -/

namespace WaitLedger

def Before (now : Int) (ledger : WaitLedger) : Prop := ∀ wait ∈ ledger.waits, wait.1 ≤ wait.2 ∧ wait.2 ≤ now

variable {ledger : WaitLedger}

theorem charged_nonneg {now : Int} (h : ledger.Before now) : 0 ≤ ledger.charged := by
  refine List.sum_nonneg fun length hlength => ?_
  obtain ⟨wait, hwait, rfl⟩ := List.mem_map.mp hlength
  have := (h wait hwait).1
  omega

theorem total_eq {start now : Int} (h : ledger.Before start) (hs : ledger.since = some start)
    (hnow : start ≤ now) : ledger.total now = ledger.charged + (now - start) := by
  have hwaits : ledger.waits.map (elapsedBy now) = ledger.waits.map fun wait => wait.2 - wait.1 := by
    refine List.map_congr_left fun wait hwait => ?_
    obtain ⟨h1, h2⟩ := h wait hwait
    unfold elapsedBy
    omega
  have hlast : elapsedBy now (start, now) = now - start := by
    unfold elapsedBy
    omega
  simp [total, finish, charged, hs, hwaits, hlast]

theorem deadline_le_iff {start now budget : Int} (h : ledger.Before start)
    (hs : ledger.since = some start) (hnow : start ≤ now) :
    budget ≤ ledger.total now ↔ start + ledger.allowance budget ≤ now := by
  have hc := charged_nonneg h
  rw [total_eq h hs hnow, allowance]
  split
  · next hw =>
    have : ledger.charged = 0 := by simp [charged, hw]
    omega
  · omega

theorem allowance_finish {start now budget : Int} (hs : ledger.since = some start) (hnow : start ≤ now) :
    (ledger.finish now).allowance budget = max 0 (ledger.allowance budget - (now - start)) := by
  have hcharged : (ledger.finish now).charged = ledger.charged + (now - start) := by simp [finish, charged, hs]
  have hwaits : (ledger.finish now).waits ≠ [] := by simp [finish, hs]
  rw [allowance, if_neg hwaits, hcharged, allowance]
  split
  · next hw =>
    have : ledger.charged = 0 := by simp [charged, hw]
    omega
  · omega

theorem Before.finish {start now : Int} (h : ledger.Before start) (hs : ledger.since = some start)
    (hnow : start ≤ now) : (ledger.finish now).Before now := by
  intro wait hwait
  simp only [WaitLedger.finish, hs, Option.map_some, Option.toList_some, List.mem_append, List.mem_singleton] at hwait
  obtain hwait | rfl := hwait
  · exact ⟨(h wait hwait).1, (h wait hwait).2.trans hnow⟩
  · exact ⟨hnow, le_refl now⟩

theorem Before.mono {now now' : Int} (h : ledger.Before now) (hnow : now ≤ now') :
    ledger.Before now' :=
  fun wait hwait => ⟨(h wait hwait).1, (h wait hwait).2.trans hnow⟩

end WaitLedger

/-- A round of the race changes nothing that the budget depends on. -/
def SameBudget (c c' : StreamDeadlineController) : Prop := c' = { c with statusEmitted := c'.statusEmitted }

section
variable {Part : Type} {now : Int} {c c' : StreamDeadlineController} {race : StreamReadRace Part}

theorem raceDue_same (h : c.raceDue now = some (race, c')) : SameBudget c c' := by
  have hstatus : StreamDeadlineController.raceDue.status now c = some (race, c') → SameBudget c c' := by
    unfold StreamDeadlineController.raceDue.status
    split
    · rintro ⟨⟩
      rfl
    · nofun
  unfold StreamDeadlineController.raceDue at h
  split at h
  · split at h
    · cases h
      rfl
    · exact hstatus h
  · exact hstatus h

theorem raceProviderRead_same {read : TrackedProviderRead Part} {aborted : Bool}
    (h : c.raceProviderRead now read aborted = some (race, c')) : SameBudget c c' := by
  unfold StreamDeadlineController.raceProviderRead at h
  split at h
  · cases h
    rfl
  split at h
  · cases h
    rfl
  split at h
  · split at h
    · cases h
      rfl
    · exact raceDue_same h
  · exact raceDue_same h

end

/-! ## Accounts kept -/

namespace DeadlineRun

variable {Part : Type} (policy : StreamLifecyclePolicy) (attemptDeadlineMs : Int)

structure Waiting (run : DeadlineRun) (start : Int) : Prop where
  since : run.ledger.since = some start
  started : start ≤ run.clock
  before : run.ledger.Before start
  waiting : run.controller.waiting = true
  waitStart : run.controller.waitStartMs = some start
  deadline : run.controller.deadlineAbsMs = run.controller.activeKind.map fun _ => start + run.controller.remainingMs

structure Accounted (run : DeadlineRun) : Prop where
  attempt : run.controller.attemptDeadlineMs = attemptDeadlineMs
  kind : run.controller.activeKind = run.ledger.kind
  remaining : ∀ kind, run.ledger.kind = some kind →
    run.controller.remainingMs = run.ledger.allowance (budgetFor policy kind)
  paused : run.turn = .paused → run.ledger.since = none ∧ run.ledger.Before run.clock
  waiting : run.turn ≠ .paused → ∃ start, run.Waiting start

variable {policy attemptDeadlineMs}

variable {now : Int} {run : DeadlineRun}

theorem Accounted.resume (h : Accounted policy attemptDeadlineMs run) (hturn : run.turn = .paused) (hnow : run.clock ≤ now)
    (snapshot : StreamSnapshot) :
    Accounted policy attemptDeadlineMs
      { controller := run.controller.resumeProviderWait policy now snapshot
        ledger := run.ledger.begin now (selectKind policy snapshot)
        clock := now
        turn := .racing } := by
  obtain ⟨hsince, hbefore⟩ := h.paused hturn
  by_cases hkind : selectKind policy snapshot = run.ledger.kind
  · have hactive : selectKind policy snapshot = run.controller.activeKind := hkind.trans h.kind.symm
    refine ⟨?_, ?_, ?_, nofun, fun _ => ⟨now, ?_⟩⟩
    · simp [StreamDeadlineController.resumeProviderWait, hactive, h.attempt]
    · simp [StreamDeadlineController.resumeProviderWait, WaitLedger.begin, hactive, h.kind]
    · intro kind hk
      simp only [WaitLedger.begin, if_pos hkind] at hk
      simpa [StreamDeadlineController.resumeProviderWait, WaitLedger.begin, WaitLedger.allowance, WaitLedger.charged,
        hactive, h.kind] using h.remaining kind hk
    · constructor <;>
        simp [StreamDeadlineController.resumeProviderWait, WaitLedger.begin, hactive, h.kind]
      exact hbefore.mono hnow
  · have hactive : selectKind policy snapshot ≠ run.controller.activeKind := fun he => hkind (he.trans h.kind)
    refine ⟨?_, ?_, ?_, nofun, fun _ => ⟨now, ?_⟩⟩
    · simp [StreamDeadlineController.resumeProviderWait, StreamDeadlineController.arm, hactive, h.attempt]
    · simp [StreamDeadlineController.resumeProviderWait, StreamDeadlineController.arm, WaitLedger.begin, WaitLedger.grant,
        hactive, hkind]
    · intro kind hk
      simp only [WaitLedger.begin, if_neg hkind, WaitLedger.grant] at hk
      rw [hk] at hactive hkind
      simp [StreamDeadlineController.resumeProviderWait, StreamDeadlineController.arm, WaitLedger.begin, WaitLedger.grant,
        WaitLedger.allowance, hactive, hkind, hk]
    · constructor <;>
        simp [StreamDeadlineController.resumeProviderWait, StreamDeadlineController.arm, WaitLedger.begin,
          WaitLedger.grant, WaitLedger.Before, hactive, hkind]

theorem Accounted.progress (h : Accounted policy attemptDeadlineMs run) (hturn : run.turn = .paused)
    (now : Int) (snapshot : StreamSnapshot) :
    Accounted policy attemptDeadlineMs
      { run with
        controller := run.controller.noteSemanticProgress policy now snapshot
        ledger := run.ledger.grant (selectKind policy snapshot)
        clock := now } := by
  obtain ⟨hsince, -⟩ := h.paused hturn
  refine ⟨?_, rfl, ?_, fun _ => ⟨hsince, nofun⟩, fun hne => absurd hturn hne⟩
  · exact h.attempt
  · intro kind hk
    have hselect : selectKind policy snapshot = some kind := hk
    simp [StreamDeadlineController.noteSemanticProgress, StreamDeadlineController.arm, WaitLedger.grant,
      WaitLedger.allowance, hselect]

theorem Accounted.pause (h : Accounted policy attemptDeadlineMs run) (hturn : run.turn = .answered) (hnow : run.clock ≤ now) :
    Accounted policy attemptDeadlineMs
      { controller := run.controller.pauseProviderWait now
        ledger := run.ledger.finish now
        clock := now
        turn := .paused } := by
  obtain ⟨start, hwait⟩ := h.waiting (by simp [hturn])
  have hstart : start ≤ now := hwait.started.trans hnow
  refine ⟨?_, ?_, ?_, fun _ => ⟨rfl, hwait.before.finish hwait.since hstart⟩, nofun⟩
  · simp [StreamDeadlineController.pauseProviderWait, hwait.waiting, hwait.waitStart, h.attempt]
  · simp [StreamDeadlineController.pauseProviderWait, WaitLedger.finish, hwait.waiting, hwait.waitStart, h.kind]
  · intro kind hk
    have hremaining := h.remaining kind hk
    simp only [WaitLedger.allowance_finish hwait.since hstart, ← hremaining]
    simp [StreamDeadlineController.pauseProviderWait, hwait.waiting, hwait.waitStart]

theorem Accounted.race (h : Accounted policy attemptDeadlineMs run) (hturn : run.turn = .racing) (hnow : run.clock ≤ now)
    {controller : StreamDeadlineController} (hc : SameBudget run.controller controller)
    (turn : DeadlineTurn) (hne : turn ≠ .paused) :
    Accounted policy attemptDeadlineMs { run with controller, clock := now, turn } := by
  obtain ⟨start, hwait⟩ := h.waiting (by simp [hturn])
  rw [SameBudget] at hc
  refine ⟨?_, ?_, ?_, fun hp => absurd hp hne, fun _ => ⟨start, hwait.since, hwait.started.trans hnow, hwait.before, ?_, ?_, ?_⟩⟩
  · rw [hc]; exact h.attempt
  · rw [hc]; exact h.kind
  · rw [hc]; exact h.remaining
  · rw [hc]; exact hwait.waiting
  · rw [hc]; exact hwait.waitStart
  · rw [hc]; exact hwait.deadline

theorem Accounted.dispose (h : Accounted policy attemptDeadlineMs run) (hnow : run.clock ≤ now) :
    Accounted policy attemptDeadlineMs { run with controller := run.controller.dispose, clock := now } := by
  refine ⟨h.attempt, h.kind, h.remaining, fun hp => ?_, fun hne => ?_⟩
  · exact ⟨(h.paused hp).1, (h.paused hp).2.mono hnow⟩
  · obtain ⟨start, hwait⟩ := h.waiting hne
    exact ⟨start, hwait.since, hwait.started.trans hnow, hwait.before, hwait.waiting, hwait.waitStart, hwait.deadline⟩

theorem Accounted.step {run' : DeadlineRun} {call : Int × DeadlineCall Part} (h : Accounted policy attemptDeadlineMs run)
    (hs : run.step policy call = some run') : Accounted policy attemptDeadlineMs run' := by
  obtain ⟨now, call⟩ := call
  simp only [DeadlineRun.step] at hs
  split at hs
  on_goal 2 => cases hs
  next hnow =>
  obtain ⟨advanced, ha, rfl⟩ := Option.map_eq_some_iff.mp hs
  cases call with
  | dispose =>
    cases ha
    exact h.dispose hnow
  | resume snapshot =>
    simp only [advance, Option.ite_none_right_eq_some, Option.some.injEq] at ha
    obtain ⟨hturn, rfl⟩ := ha
    exact h.resume hturn hnow snapshot
  | pause =>
    simp only [advance, Option.ite_none_right_eq_some, Option.some.injEq] at ha
    obtain ⟨hturn, rfl⟩ := ha
    exact h.pause hturn hnow
  | progress snapshot =>
    simp only [advance, Option.ite_none_right_eq_some, Option.some.injEq] at ha
    obtain ⟨hturn, rfl⟩ := ha
    exact h.progress hturn now snapshot
  | race read aborted =>
    simp only [advance, Option.ite_none_right_eq_some] at ha
    obtain ⟨hturn, ha⟩ := ha
    split at ha
    · next race controller hrace =>
      cases ha
      exact h.race hturn hnow (raceProviderRead_same hrace) .answered nofun
    · cases ha
      have hsame : SameBudget run.controller run.controller := rfl
      exact h.race hturn hnow hsame run.turn (by simp [hturn])

theorem accounted_calls {start : Int} {calls : List (Int × DeadlineCall Part)}
    (h : Calls policy attemptDeadlineMs start calls run) : Accounted policy attemptDeadlineMs run := by
  refine h.invariant (Accounted policy attemptDeadlineMs) ?_ fun run call run' hi hs => hi.step hs
  exact ⟨rfl, rfl, nofun, fun _ => ⟨rfl, nofun⟩, fun hne => absurd rfl hne⟩

/-! ## The race -/

variable (policy) in
/-- What a round of the race owes to the time waited: when the deadline of a wait comes, that it is reported only
and always then, and that a read which settled by it is delivered. -/
structure AccountsFor (run : DeadlineRun) (now : Int) (read : TrackedProviderRead Part) (aborted : Bool) : Prop where
  comes : ∀ kind deadline t, run.ledger.deadline (budgetFor policy kind) = some deadline → run.ledger.since.all (· ≤ t) →
    (budgetFor policy kind ≤ run.ledger.total t ↔ deadline ≤ t)
  charged : ∀ kind, run.answer now read aborted = some (.providerDeadline kind) →
    run.ledger.kind = some kind ∧ budgetFor policy kind ≤ run.ledger.total now
  reported : ∀ kind, run.ledger.kind = some kind → budgetFor policy kind ≤ run.ledger.total now →
    (∀ settledAtMs settlement, read.settled = some (settledAtMs, settlement) →
      (run.ledger.deadline (budgetFor policy kind)).any (· < settledAtMs)) →
    run.answer now read aborted = some ((run.stopped now aborted).getD (.providerDeadline kind))
  delivered : ∀ settledAtMs settlement, read.settled = some (settledAtMs, settlement) →
    (∀ kind, run.ledger.kind = some kind → (run.ledger.deadline (budgetFor policy kind)).all (settledAtMs ≤ ·)) →
    run.answer now read aborted = some ((run.stopped now aborted).getD (StreamDeadlineController.raceOfSettlement settlement))

theorem answer_eq (run : DeadlineRun) (now : Int) (read : TrackedProviderRead Part) (aborted : Bool) :
    run.answer now read aborted = (run.stopped now aborted).or
      (match read.settled with
      | some (settledAtMs, settlement) =>
        if run.controller.inTime settledAtMs then some (StreamDeadlineController.raceOfSettlement settlement)
        else (run.controller.raceDue now).map Prod.fst
      | none => (run.controller.raceDue now).map Prod.fst) := by
  unfold answer stopped StreamDeadlineController.raceProviderRead
  split
  · rfl
  split
  · rfl
  cases read.settled with
  | none => rfl
  | some settled =>
    obtain ⟨settledAtMs, settlement⟩ := settled
    simp only [Option.none_or]
    split <;> rfl

variable {kind : StreamProviderDeadlineKind}

theorem raceDue_deadline {c : StreamDeadlineController} {deadline : Int}
    (hk : c.activeKind = some kind) (hd : c.deadlineAbsMs = some deadline) (hnow : deadline ≤ now) :
    (c.raceDue now).map Prod.fst = some (.providerDeadline kind : StreamReadRace Part) := by
  simp [StreamDeadlineController.raceDue, hk, hd, hnow]

theorem of_raceDue_deadline {c : StreamDeadlineController}
    (h : (c.raceDue now).map Prod.fst = some (.providerDeadline kind : StreamReadRace Part)) :
    c.activeKind = some kind ∧ ∃ deadline, c.deadlineAbsMs = some deadline ∧ deadline ≤ now := by
  obtain ⟨⟨race, c'⟩, h, rfl⟩ := Option.map_eq_some_iff.mp h
  have hstatus : StreamDeadlineController.raceDue.status now c ≠ some ((.providerDeadline kind : StreamReadRace Part), c') := by
    unfold StreamDeadlineController.raceDue.status
    split <;> nofun
  unfold StreamDeadlineController.raceDue at h
  split at h
  · next deadline active hd hk =>
    split at h
    · next hle =>
      cases h
      exact ⟨hk, deadline, hd, hle⟩
    · exact absurd h hstatus
  · exact absurd h hstatus

theorem stopped_ne_deadline {aborted : Bool} :
    (run.stopped now aborted : Option (StreamReadRace Part)) ≠ some (.providerDeadline kind) := by
  unfold stopped
  split
  · nofun
  split <;> nofun

theorem raceOfSettlement_ne_deadline {settlement : ReadSettlement Part} :
    StreamDeadlineController.raceOfSettlement settlement ≠ .providerDeadline kind := by
  cases settlement <;> nofun

theorem answer_deadline {read : TrackedProviderRead Part} {aborted : Bool}
    (h : run.answer now read aborted = some (.providerDeadline kind)) :
    (run.controller.raceDue now).map Prod.fst = some (.providerDeadline kind : StreamReadRace Part) := by
  rw [answer_eq] at h
  cases hstop : (run.stopped now aborted : Option (StreamReadRace Part)) with
  | some race =>
    rw [hstop, Option.some_or] at h
    exact absurd (hstop.trans h) stopped_ne_deadline
  | none =>
    rw [hstop, Option.none_or] at h
    split at h
    · split at h
      · exact absurd (Option.some.inj h) raceOfSettlement_ne_deadline
      · exact h
    · exact h

/-- The time that is charged is the time waited, over every run of the controller. -/
theorem raceProviderRead_accounts {start : Int} {calls : List (Int × DeadlineCall Part)} {run : DeadlineRun}
    (h : Calls policy attemptDeadlineMs start calls run) (hturn : run.turn = .racing) {now : Int} (hnow : run.clock ≤ now)
    (read : TrackedProviderRead Part) (aborted : Bool) :
    run.controller.attemptDeadlineMs = attemptDeadlineMs ∧ run.AccountsFor policy now read aborted := by
  have hacc := accounted_calls h
  obtain ⟨start, hwait⟩ := hacc.waiting (by simp [hturn])
  have hnow' : start ≤ now := hwait.started.trans hnow
  -- The controller's deadline is the ledger's.
  have hdeadline : ∀ kind, run.ledger.kind = some kind →
      run.controller.deadlineAbsMs = run.ledger.deadline (budgetFor policy kind) := by
    intro kind hk
    rw [hwait.deadline, hacc.kind, hk, hacc.remaining kind hk, WaitLedger.deadline, hwait.since]
    rfl
  have hledger : ∀ kind, run.ledger.deadline (budgetFor policy kind) =
      some (start + run.ledger.allowance (budgetFor policy kind)) := by
    intro kind
    rw [WaitLedger.deadline, hwait.since, Option.map_some]
  refine ⟨hacc.attempt, ?_, ?_, ?_, ?_⟩
  · intro kind deadline t hd ht
    rw [hledger] at hd
    cases hd
    simp only [hwait.since, Option.all_some, decide_eq_true_eq] at ht
    exact WaitLedger.deadline_le_iff hwait.before hwait.since ht
  · intro kind ha
    obtain ⟨hk, deadline, hd, hle⟩ := of_raceDue_deadline (answer_deadline ha)
    rw [hacc.kind] at hk
    rw [hdeadline kind hk, hledger] at hd
    cases hd
    exact ⟨hk, (WaitLedger.deadline_le_iff hwait.before hwait.since hnow').mpr hle⟩
  · intro kind hk hbudget hlate
    have hle := (WaitLedger.deadline_le_iff hwait.before hwait.since hnow').mp hbudget
    have hdue : (run.controller.raceDue now).map Prod.fst = some (.providerDeadline kind : StreamReadRace Part) :=
      raceDue_deadline (hacc.kind.trans hk) ((hdeadline kind hk).trans (hledger kind)) hle
    rw [answer_eq]
    cases hstop : (run.stopped now aborted : Option (StreamReadRace Part)) with
    | some race => rfl
    | none =>
      rw [Option.none_or, Option.getD_none]
      split
      · next settledAtMs settlement hsettled =>
        have hout : run.controller.inTime settledAtMs = false := by
          have := hlate settledAtMs settlement hsettled
          rw [hledger] at this
          rw [StreamDeadlineController.inTime, hdeadline kind hk, hledger]
          simpa using this
        rw [hout]
        exact hdue
      · exact hdue
  · intro settledAtMs settlement hsettled hearly
    have hin : run.controller.inTime settledAtMs = true := by
      rw [StreamDeadlineController.inTime]
      cases hk : run.ledger.kind with
      | none => simp [hwait.deadline, hacc.kind, hk]
      | some kind =>
        rw [hdeadline kind hk]
        exact hearly kind hk
    rw [answer_eq, hsettled]
    cases (run.stopped now aborted : Option (StreamReadRace Part)) with
    | some race => rfl
    | none => simp [hin]

/-! ## A budget that runs out between the answer and the pause -/

/-- A tool whose input is open, and whose status is due at intervals. -/
def openInput : StreamSnapshot :=
  { createInitialReducerState.snapshot with tools := [⟨[], [], .inputOpen, [], [], none, none, none, none, none, none, false⟩] }

/-- The status is answered a moment before the deadline, and the wait is paused a moment after. -/
def lateStatusCalls : List (Int × DeadlineCall Unit) :=
  [(0, .resume openInput), (14999, .race {} false), (15000, .pause), (15002, .resume openInput)]

def lateStatusRun : DeadlineRun :=
  let run : DeadlineRun := ⟨{ attemptDeadlineMs := 300000 }, {}, 0, .paused⟩
  (lateStatusCalls.foldlM (DeadlineRun.step {}) run).getD run

theorem lateStatusRun_calls : Calls {} 300000 0 lateStatusCalls lateStatusRun := Run.of_foldlM rfl

/-- The budget has run out at 15000. A part that settles at 15001 is delivered nevertheless, since the wait goes on at
15002; and a race whose signal is aborted is cancelled. -/
theorem raceProviderRead_pause_gap :
    Calls {} 300000 0 lateStatusCalls lateStatusRun ∧ lateStatusRun.turn = .racing ∧ lateStatusRun.clock ≤ 15002 ∧
      lateStatusRun.ledger.kind = some .toolInputIdle ∧
      budgetFor {} .toolInputIdle ≤ lateStatusRun.ledger.total 15000 ∧
      lateStatusRun.answer 15002 ⟨some (15001, .result (.value ()))⟩ false = some (.part (.value ())) ∧
      lateStatusRun.answer 15002 ({} : TrackedProviderRead Unit) true = some .cancelled :=
  ⟨lateStatusRun_calls, rfl, by decide, rfl, by decide, rfl, rfl⟩

/-- A race that is examined as the budget runs out. -/
theorem raceProviderRead_accounts_late : lateStatusRun.AccountsFor {} 15002 ({} : TrackedProviderRead Unit) false :=
  (raceProviderRead_accounts lateStatusRun_calls rfl (by decide) {} false).2

end DeadlineRun

end Veryfront.Agent.Streaming
