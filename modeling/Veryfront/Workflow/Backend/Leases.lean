import Mathlib.Logic.Function.Basic
import Veryfront.Lib.Runs
import Veryfront.Workflow.Backend.Coordination

/-!
# Leases on runs

A worker whose lock has been granted or extended may count on it until the time it was told, whatever the other workers
call. It is deceived only by the calls that take locks away without a token.
-/

namespace Veryfront.Workflow

open Veryfront.Lib Function

/-! ## What the workers have been told -/

/-- Until when the holder of a token counts on the lock of a run. -/
abbrev Told := String → String → Option Timestamp

namespace Told

def grant (told : Told) (r token : String) (until' : Timestamp) : Told := update told r (update (told r) token (some until'))

def giveUp (told : Told) (r token : String) : Told := update told r (update (told r) token none)

/-- Nobody can count on the lock of this run. -/
def void (told : Told) (r : String) : Told := update told r fun _ => none

/-- A call without a token says nothing to its caller, but it may take the lock away from its holder. -/
def after (b : MemoryBackend) (told : Told) : BackendCall → Told
  | .acquireLock now lockId r duration =>
    match (b.acquireLock now lockId r duration).1 with
    | .ok (some token) => told.grant r token (now + duration)
    | _ => told
  | .extendLock now r duration (some token) =>
    match (b.extendLock now r duration (some token)).1 with
    | .ok true => told.grant r token (now + duration)
    | _ => told.giveUp r token
  | .extendLock _ r _ none => told.void r
  | .releaseLock r (some token) => told.giveUp r token
  | .releaseLock r none => told.void r
  | .deleteRun r => told.void r
  | .deleteTerminalRunIfUnchanged candidate =>
    match (b.deleteTerminalRunIfUnchanged candidate).1 with
    | .ok true => told.void candidate.runId
    | _ => told
  | .clear => fun _ _ => none
  | _ => told

end Told

def BackendCall.lockTime : BackendCall → Option Timestamp
  | .acquireLock now _ _ _ => some now
  | .extendLock now _ _ _ => some now
  | _ => none

variable {call : BackendCall}

theorem BackendCall.lockTime_of_other (h : call.coordinates = false) : call.lockTime = none := by
  unfold lockTime
  split
  case h_3 => rfl
  all_goals cases h

structure LeaseHistory where
  backend : MemoryBackend
  told : Told
  clock : Timestamp

/-- The clock does not go back. -/
inductive LeaseStep : LeaseHistory → BackendCall → LeaseHistory → Prop
  | call {h : LeaseHistory} (c : BackendCall) : (∀ now, c.lockTime = some now → h.clock ≤ now) →
      LeaseStep h c ⟨(c.exec h.backend).2, h.told.after h.backend c, c.lockTime.getD h.clock⟩

/-! ## The invariant -/

def LeaseHistory.Honest (h : LeaseHistory) : Prop :=
  ∀ r token until', h.told r token = some until' → h.clock < until' → h.backend.locks.get? r = some ⟨token, until'⟩

namespace Told

variable {told : Told} {r r' token token' : String} {until' : Timestamp}

variable {deadline : Timestamp}

theorem grant_cases (h : told.grant r token until' r' token' = some deadline) :
    r' = r ∧ token' = token ∧ deadline = until' ∨ told r' token' = some deadline ∧ ¬ (r' = r ∧ token' = token) := by
  rw [grant, update_apply] at h
  split at h
  · rename_i hr
    subst hr
    rw [update_apply] at h
    split at h
    · rename_i htoken
      exact .inl ⟨rfl, htoken, (Option.some.inj h).symm⟩
    · rename_i htoken
      exact .inr ⟨h, fun hboth => htoken hboth.2⟩
  · rename_i hr
    exact .inr ⟨h, fun hboth => hr hboth.1⟩

theorem giveUp_cases (h : told.giveUp r token r' token' = some deadline) :
    told r' token' = some deadline ∧ ¬ (r' = r ∧ token' = token) := by
  rw [giveUp, update_apply] at h
  split at h
  · rename_i hr
    subst hr
    rw [update_apply] at h
    split at h
    · cases h
    · rename_i htoken
      exact ⟨h, fun hboth => htoken hboth.2⟩
  · rename_i hr
    exact ⟨h, fun hboth => hr hboth.1⟩

theorem void_cases (h : told.void r r' token' = some deadline) :
    told r' token' = some deadline ∧ r' ≠ r := by
  rw [void, update_apply] at h
  split at h
  · cases h
  · rename_i hr
    exact ⟨h, hr⟩

theorem after_of_other {b : MemoryBackend} (h : call.coordinates = false) : told.after b call = told := by
  unfold after
  split
  case h_9 => rfl
  all_goals cases h

end Told

namespace LeaseHistory.Honest

variable {h : LeaseHistory}

theorem acquireLock (hv : h.Honest) {now : Timestamp} (hnow : h.clock ≤ now) (lockId r : String) (duration : Int) :
    Honest ⟨(h.backend.acquireLock now lockId r duration).2, h.told.after h.backend (.acquireLock now lockId r duration), now⟩ := by
  intro r' token until' htold hlive
  rw [Told.after] at htold
  rcases h.backend.acquireLock_cases now lockId r duration with ⟨hnone, -⟩ | ⟨hset, hfree⟩
  · rw [hnone] at htold ⊢
    exact hv r' token until' htold (Int.lt_of_le_of_lt hnow hlive)
  · rw [hset] at htold ⊢
    change (h.backend.locks.set r ⟨lockId, now + duration⟩).get? r' = some ⟨token, until'⟩
    rw [OrdMap.get?_set]
    rcases Told.grant_cases htold with ⟨rfl, rfl, rfl⟩ | ⟨hold, -⟩
    · rw [if_pos rfl]
    · have hheld := hv r' token until' hold (Int.lt_of_le_of_lt hnow hlive)
      rw [if_neg, hheld]
      rintro rfl
      -- A lock that somebody counts on has not expired, so that it is not granted again.
      exact absurd hlive (Int.not_lt.mpr (hfree _ hheld))

theorem extendLock (hv : h.Honest) {now : Timestamp} (hnow : h.clock ≤ now) (r : String) (duration : Int)
    (lockId : Option String) :
    Honest ⟨(h.backend.extendLock now r duration lockId).2, h.told.after h.backend (.extendLock now r duration lockId), now⟩ := by
  intro r' token until' htold hlive
  have hheld : ∀ {r' token}, h.told r' token = some until' → h.backend.locks.get? r' = some ⟨token, until'⟩ :=
    fun hold => hv _ _ _ hold (Int.lt_of_le_of_lt hnow hlive)
  rcases h.backend.extendLock_cases now r duration lockId with ⟨hfalse, -⟩ | ⟨lock, hlock, -, hmine, htrue⟩
  · rw [hfalse]
    cases lockId with
    | none => exact hheld (Told.void_cases htold).1
    | some t =>
      rw [Told.after, hfalse] at htold
      exact hheld (Told.giveUp_cases htold).1
  · rw [htrue]
    change (h.backend.locks.set r { lock with expiresAt := now + duration }).get? r' = some ⟨token, until'⟩
    rw [OrdMap.get?_set]
    cases lockId with
    | none =>
      obtain ⟨hold, hr⟩ := Told.void_cases htold
      rw [if_neg hr, hheld hold]
    | some t =>
      rw [Told.after, htrue] at htold
      rcases Told.grant_cases htold with ⟨rfl, rfl, rfl⟩ | ⟨hold, hother⟩
      · rw [if_pos rfl, hmine _ rfl]
      · rw [if_neg, hheld hold]
        rintro rfl
        have hsame := Option.some.inj (hlock.symm.trans (hheld hold))
        exact hother ⟨rfl, by rw [hmine _ rfl, hsame]⟩

theorem releaseLock (hv : h.Honest) (r : String) (lockId : Option String) :
    Honest ⟨(h.backend.releaseLock r lockId).2, h.told.after h.backend (.releaseLock r lockId), h.clock⟩ := by
  intro r' token until' htold hlive
  have hold : h.told r' token = some until' ∧ (r' = r → ∃ t, lockId = some t ∧ token ≠ t) := by
    cases lockId with
    | none =>
      obtain ⟨hold, hr⟩ := Told.void_cases htold
      exact ⟨hold, fun heq => absurd heq hr⟩
    | some t =>
      obtain ⟨hold, hother⟩ := Told.giveUp_cases htold
      exact ⟨hold, fun heq => ⟨t, rfl, fun htoken => hother ⟨heq, htoken⟩⟩⟩
  have hheld := hv r' token until' hold.1 hlive
  rcases h.backend.releaseLock_cases r lockId with ⟨hsame, -⟩ | ⟨herase, hmine⟩
  · rw [hsame]
    exact hheld
  · rw [herase]
    change (h.backend.locks.erase r).get? r' = some ⟨token, until'⟩
    rw [OrdMap.get?_erase, if_neg, hheld]
    intro hr
    obtain ⟨t, ht, hne⟩ := hold.2 hr
    rw [hr] at hheld
    exact hne (hmine _ t hheld ht).symm

theorem deleted (hv : h.Honest) {b : MemoryBackend} {r : String} (hview : b.coordinationOf = h.backend.coordinationOf.deleteRun r) :
    Honest ⟨b, h.told.void r, h.clock⟩ := by
  intro r' token until' htold hlive
  obtain ⟨hold, hr⟩ := Told.void_cases htold
  have hlocks : b.locks = h.backend.locks.erase r := congrArg CoordinationView.locks hview
  change b.locks.get? r' = _
  rw [hlocks, OrdMap.get?_erase, if_neg hr]
  exact hv r' token until' hold hlive

theorem of_locks (hv : h.Honest) {b : MemoryBackend} (hlocks : b.locks = h.backend.locks) :
    Honest ⟨b, h.told, h.clock⟩ := by
  intro r token until' htold hlive
  change b.locks.get? r = _
  rw [hlocks]
  exact hv r token until' htold hlive

theorem exec (hv : h.Honest) (hclock : ∀ now, call.lockTime = some now → h.clock ≤ now) :
    Honest ⟨(call.exec h.backend).2, h.told.after h.backend call, call.lockTime.getD h.clock⟩ := by
  cases hcall : call.coordinates with
  | false =>
    rw [BackendCall.lockTime_of_other hcall, Told.after_of_other hcall]
    exact hv.of_locks (congrArg CoordinationView.locks (BackendCall.coordinationOf_exec hcall))
  | true =>
    cases call with
    | acquireLock now lockId r duration => exact hv.acquireLock (hclock now rfl) lockId r duration
    | extendLock now r duration lockId => exact hv.extendLock (hclock now rfl) r duration lockId
    | releaseLock r lockId => exact hv.releaseLock r lockId
    | deleteRun r => exact hv.deleted rfl
    | deleteTerminalRunIfUnchanged candidate =>
      rcases h.backend.deleteTerminalRunIfUnchanged_cases candidate with hsame | ⟨hreply, hview⟩
      · simp only [Told.after, BackendCall.exec, BackendCall.ofDelete, hsame]
        exact hv
      · have hdeleted := hv.deleted hview
        simp only [Told.after, hreply]
        exact hdeleted
    | enqueue job =>
      refine hv.of_locks ?_
      rcases h.backend.enqueue_cases job with ⟨e, hfull⟩ | ⟨-, -, hview⟩
      · simp [BackendCall.exec, BackendCall.ofUnit, hfull]
      · exact congrArg CoordinationView.locks hview
    | dequeue =>
      refine hv.of_locks ?_
      rcases h.backend.dequeue_cases with ⟨-, hnone⟩ | ⟨job, rest, -, -, hview⟩
      · simp [BackendCall.exec, BackendCall.ofDequeue, hnone]
      · exact congrArg CoordinationView.locks hview
    | clear =>
      intro r token until' htold _
      cases htold
    | _ => cases hcall

theorem step (hv : h.Honest) {h' : LeaseHistory} (hstep : LeaseStep h call h') : h'.Honest := by
  cases hstep with
  | call hclock => exact hv.exec hclock

end LeaseHistory.Honest

/-! ## Runs -/

theorem honest_of_run {maxQueueSize : Nat} {start : Timestamp} {calls : List BackendCall} {h : LeaseHistory}
    (hrun : Run LeaseStep ⟨{ maxQueueSize := maxQueueSize }, fun _ _ => none, start⟩ calls h) : h.Honest :=
  Run.invariant LeaseHistory.Honest (fun _ _ _ htold => by cases htold) (fun _ _ _ hv hstep => hv.step hstep) hrun

/-- At most one token counts on the lock of a run. While it does, nobody else is granted the lock, and it can be extended. -/
theorem leases_exclusive {maxQueueSize : Nat} {start : Timestamp} {calls : List BackendCall} {h : LeaseHistory}
    (hrun : Run LeaseStep ⟨{ maxQueueSize := maxQueueSize }, fun _ _ => none, start⟩ calls h) {r token : String}
    {until' : Timestamp} (htold : h.told r token = some until') (hlive : h.clock < until') :
    (∀ token' until'', h.told r token' = some until'' → h.clock < until'' → token' = token) ∧
    ∀ now, h.clock ≤ now → now < until' → ∀ duration,
      (h.backend.extendLock now r duration (some token)).1 = .ok true ∧
      ∀ lockId, (h.backend.acquireLock now lockId r duration).1 = .ok none := by
  have hv := honest_of_run hrun
  have hheld := hv r token until' htold hlive
  refine ⟨?_, ?_⟩
  · intro token' until'' htold' hlive'
    have hheld' := hv r token' until'' htold' hlive'
    rw [hheld] at hheld'
    exact (congrArg Lock.lockId (Option.some.inj hheld')).symm
  · intro now _ hbefore duration
    constructor
    · rcases h.backend.extendLock_cases now r duration (some token) with ⟨-, hother⟩ | ⟨lock, -, -, -, htrue⟩
      · obtain ⟨t, ht, hne⟩ := hother _ hheld hbefore
        exact absurd (Option.some.inj ht).symm hne
      · rw [htrue]
    · intro lockId
      rcases h.backend.acquireLock_cases now lockId r duration with ⟨hnone, -⟩ | ⟨-, hfree⟩
      · rw [hnone]
      · exact absurd hbefore (Int.not_lt.mpr (hfree _ hheld))

/-- The first worker stalls until its lock has expired, and its late release does not touch the lock of the second. -/
def stalledCalls : List BackendCall :=
  [.acquireLock 0 "one" "r" 10, .acquireLock 5 "two" "r" 10, .acquireLock 12 "two" "r" 10, .releaseLock "r" (some "one")]

theorem leases_exclusive_stalled :
    ∃ h, Run LeaseStep ⟨{ maxQueueSize := 10 }, fun _ _ => none, 0⟩ stalledCalls h ∧ h.clock = 12 ∧
      ∀ lockId, (h.backend.acquireLock 21 lockId "r" 10).1 = .ok none := by
  have hstart : Run LeaseStep ⟨{ maxQueueSize := 10 }, fun _ _ => none, 0⟩ [] ⟨{ maxQueueSize := 10 }, fun _ _ => none, 0⟩ := .nil
  have hgranted := hstart.snoc (.call (.acquireLock 0 "one" "r" 10) (by decide))
  have hrefused := hgranted.snoc (.call (.acquireLock 5 "two" "r" 10) (by decide))
  have hexpired := hrefused.snoc (.call (.acquireLock 12 "two" "r" 10) (by decide))
  have hrun := hexpired.snoc (.call (.releaseLock "r" (some "one")) (by decide))
  refine ⟨_, hrun, rfl, ?_⟩
  intro lockId
  exact ((@leases_exclusive _ _ _ _ hrun "r" "two" 22 (by decide) (by decide)).2 21 (by decide) (by decide) 10).2 lockId

end Veryfront.Workflow
