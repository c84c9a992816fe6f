import Mathlib.Data.Finset.Basic
import Veryfront.Lib.Monitor

/-!
# A semaphore whose permits are handed over

A call that finds no permit waits in a queue. A release hands its permit to the first waiter, and a waiter that times
out or is aborted leaves the queue. Calls are numbered in the order of arrival.
-/

namespace Veryfront.PermitSemaphore

open Lib Lib.Emitter

/-! ## The semaphore -/

def maxTimerDelayMs : Int := 2147483647

/-- A number given as a timeout; the last kind is none that an integer is. -/
inductive TimeoutArgument
  | infinity
  | integer (ms : Int)
  | notAnInteger
deriving DecidableEq

/-- `none` is infinite. -/
abbrev AcquireTimeout := Option Nat

/-- `none` where the argument is refused with a range error. -/
def requireAcquireTimeout : TimeoutArgument → Option AcquireTimeout
  | .infinity => some none
  | .integer ms => if ms < 0 ∨ maxTimerDelayMs < ms then none else some (some ms.toNat)
  | .notAnInteger => none

inductive Outcome
  | acquired
  | refused
  | aborted
  | rangeError
deriving DecidableEq

structure Settlement where
  call : Nat
  outcome : Outcome
deriving DecidableEq

/-- The records of the waiters are kept as the sets of those that are settled, that have a timer and that listen to
their signal. -/
structure Semaphore where
  maxQueueSize : Nat
  permits : Nat
  waitQueue : List Nat
  settled : Finset Nat
  timers : Finset Nat
  listeners : Finset Nat
  /-- How many calls have been made. -/
  calls : Nat

def create (permits maxQueueSize : Nat) : Semaphore where
  maxQueueSize
  permits
  waitQueue := []
  settled := ∅
  timers := ∅
  listeners := ∅
  calls := 0

/-- A signal is given by whether it is aborted already. -/
inductive Event
  | tryAcquire (timeoutMs : TimeoutArgument) (signal : Option Bool)
  | release
  | timeout (waiter : Nat)
  | abort (waiter : Nat)
deriving DecidableEq

/-- A settled waiter is out of the queue, and neither its timer nor its signal can reach it. -/
def settle (waiter : Nat) (semaphore : Semaphore) : Semaphore :=
  { semaphore with
    waitQueue := semaphore.waitQueue.erase waiter
    settled := insert waiter semaphore.settled
    timers := semaphore.timers.erase waiter
    listeners := semaphore.listeners.erase waiter }

def enqueue (waiter : Nat) (timeout : AcquireTimeout) (signal : Option Bool) (semaphore : Semaphore) : Semaphore :=
  { semaphore with
    waitQueue := semaphore.waitQueue ++ [waiter]
    timers := if timeout.isSome then insert waiter semaphore.timers else semaphore.timers
    listeners := if signal.isSome then insert waiter semaphore.listeners else semaphore.listeners }

def tryAcquire (timeoutMs : TimeoutArgument) (signal : Option Bool) : Emitter Semaphore Settlement := fun semaphore =>
  let call := semaphore.calls
  let after := { semaphore with calls := call + 1 }
  match requireAcquireTimeout timeoutMs with
  | none => (after, [⟨call, .rangeError⟩])
  | some timeout =>
    if signal = some true then (after, [⟨call, .aborted⟩])
    else if 0 < semaphore.permits then ({ after with permits := semaphore.permits - 1 }, [⟨call, .acquired⟩])
    else if timeout = some 0 ∨ semaphore.maxQueueSize ≤ semaphore.waitQueue.length then (after, [⟨call, .refused⟩])
    else (enqueue call timeout signal after, [])

def shiftUnsettled (settled : Finset Nat) : List Nat → Option Nat × List Nat
  | [] => (none, [])
  | waiter :: queue => if waiter ∈ settled then shiftUnsettled settled queue else (some waiter, queue)

def release : Emitter Semaphore Settlement := fun semaphore =>
  match shiftUnsettled semaphore.settled semaphore.waitQueue with
  | (some waiter, queue) => (settle waiter { semaphore with waitQueue := queue }, [⟨waiter, .acquired⟩])
  | (none, queue) => ({ semaphore with waitQueue := queue, permits := semaphore.permits + 1 }, [])

/-- What a timer or a signal does to its waiter. -/
def giveUp (waiter : Nat) (outcome : Outcome) : Emitter Semaphore Settlement := fun semaphore =>
  if waiter ∈ semaphore.settled then (semaphore, []) else (settle waiter semaphore, [⟨waiter, outcome⟩])

/-- `none` where the event cannot happen: no timer runs, or nobody listens. -/
def step (semaphore : Semaphore) : Event → Option (Semaphore × List Settlement)
  | .tryAcquire timeoutMs signal => some (tryAcquire timeoutMs signal semaphore)
  | .release => some (release semaphore)
  | .timeout waiter => if waiter ∈ semaphore.timers then some (giveUp waiter .refused semaphore) else none
  | .abort waiter => if waiter ∈ semaphore.listeners then some (giveUp waiter .aborted semaphore) else none

def run (permits maxQueueSize : Nat) (events : List Event) : Option (Semaphore × List Settlement) :=
  emitAll step (create permits maxQueueSize) events

/-! ## What every step keeps -/

def acquisitions (log : List Settlement) : Nat := log.countP (·.outcome = .acquired)

def releases (events : List Event) : Nat := events.countP (· = .release)

structure Conserved (permits maxQueueSize : Nat) (events : List Event) (semaphore : Semaphore) (log : List Settlement) :
    Prop where
  balance : semaphore.permits + acquisitions log = permits + releases events
  handedOver : semaphore.waitQueue ≠ [] → semaphore.permits = 0
  once : (log.map Settlement.call).Nodup
  waiting : ∀ call, call ∈ semaphore.waitQueue ↔ call < semaphore.calls ∧ call ∉ log.map Settlement.call
  issued : ∀ call ∈ log.map Settlement.call, call < semaphore.calls
  arrival : semaphore.waitQueue.Pairwise (· < ·)
  bounded : semaphore.waitQueue.length ≤ maxQueueSize
  unsettled : ∀ call ∈ semaphore.waitQueue, call ∉ semaphore.settled
  known : ∀ call ∈ semaphore.settled, call < semaphore.calls
  reachable : ∀ call, call ∈ semaphore.timers ∨ call ∈ semaphore.listeners → call ∈ semaphore.waitQueue
  capacity : semaphore.maxQueueSize = maxQueueSize

variable {permits maxQueueSize : Nat} {events : List Event} {semaphore : Semaphore} {log : List Settlement}

theorem conserved_create : Conserved permits maxQueueSize [] (create permits maxQueueSize) [] where
  balance := rfl
  handedOver h := absurd rfl h
  once := List.nodup_nil
  waiting call := by simp [create]
  issued := nofun
  arrival := .nil
  bounded := Nat.zero_le _
  unsettled := nofun
  known := nofun
  reachable call h := by simp [create] at h
  capacity := rfl

theorem acquisitions_snoc (log : List Settlement) (call : Nat) (outcome : Outcome) :
    acquisitions (log ++ [⟨call, outcome⟩]) = acquisitions log + if outcome = .acquired then 1 else 0 := by
  simp [acquisitions, List.countP_append, List.countP_singleton]

theorem nodup_snoc {call : Nat} (h : (log.map Settlement.call).Nodup) (hnew : call ∉ log.map Settlement.call)
    (outcome : Outcome) : ((log ++ [Settlement.mk call outcome]).map Settlement.call).Nodup := by
  rw [List.map_append]
  refine List.nodup_append.mpr ⟨h, by simp, fun a ha b hb heq => hnew ?_⟩
  have hcall : b = call := List.mem_singleton.mp hb
  exact hcall ▸ heq ▸ ha

variable {event : Event}

theorem Conserved.settle (h : Conserved permits maxQueueSize events semaphore log) {waiter : Nat}
    (hwaiter : waiter ∈ semaphore.waitQueue) {outcome : Outcome}
    (hevent : outcome = .acquired ↔ event = .release) :
    Conserved permits maxQueueSize (events ++ [event]) (settle waiter semaphore) (log ++ [⟨waiter, outcome⟩]) := by
  have hnodup : semaphore.waitQueue.Nodup := h.arrival.imp Nat.ne_of_lt
  have hleft : ∀ call, call ∈ semaphore.waitQueue.erase waiter ↔ call ≠ waiter ∧ call ∈ semaphore.waitQueue :=
    fun call => hnodup.mem_erase_iff
  obtain ⟨hissued, hnew⟩ := (h.waiting waiter).mp hwaiter
  refine ⟨?_, fun _ => h.handedOver (List.ne_nil_of_mem hwaiter), ?_, fun call => ?_, fun call hcall => ?_,
    h.arrival.sublist List.erase_sublist, Nat.le_trans List.erase_sublist.length_le h.bounded, fun call hcall => ?_,
    fun call hcall => ?_, fun call hcall => ?_, h.capacity⟩
  · have hbalance := h.balance
    rw [acquisitions_snoc, releases, List.countP_append, List.countP_singleton]
    simp only [PermitSemaphore.settle, releases, hevent, decide_eq_true_eq] at hbalance ⊢
    split <;> omega
  · exact nodup_snoc h.once hnew outcome
  · show call ∈ semaphore.waitQueue.erase waiter ↔ _
    simp only [hleft, h.waiting call, List.map_append, List.mem_append, List.map_cons, List.map_nil, List.mem_singleton,
      not_or, PermitSemaphore.settle]
    tauto
  · rcases List.mem_append.mp (List.map_append ▸ hcall) with hcall | hcall
    · exact h.issued call hcall
    · exact List.mem_singleton.mp hcall ▸ hissued
  · obtain ⟨hne, hmem⟩ := (hleft call).mp hcall
    simp [PermitSemaphore.settle, hne, h.unsettled call hmem]
  · rcases Finset.mem_insert.mp hcall with rfl | hcall
    · exact hissued
    · exact h.known call hcall
  · simp only [PermitSemaphore.settle, Finset.mem_erase] at hcall
    rcases hcall with ⟨hne, hcall⟩ | ⟨hne, hcall⟩
    · exact (hleft call).mpr ⟨hne, h.reachable call (.inl hcall)⟩
    · exact (hleft call).mpr ⟨hne, h.reachable call (.inr hcall)⟩

theorem Conserved.answer (h : Conserved permits maxQueueSize events semaphore log) {outcome : Outcome} {left : Nat}
    (hleft : semaphore.permits = left + if outcome = .acquired then 1 else 0) (hevent : event ≠ .release) :
    Conserved permits maxQueueSize (events ++ [event]) { semaphore with calls := semaphore.calls + 1, permits := left }
      (log ++ [⟨semaphore.calls, outcome⟩]) := by
  have hnew : semaphore.calls ∉ log.map Settlement.call := fun hmem => Nat.lt_irrefl _ (h.issued _ hmem)
  refine ⟨?_, fun hne => ?_, ?_, fun call => ?_, fun call hcall => ?_, h.arrival, h.bounded, h.unsettled,
    fun call hcall => Nat.lt_succ_of_lt (h.known call hcall), h.reachable, h.capacity⟩
  · have hbalance := h.balance
    rw [acquisitions_snoc, releases, List.countP_append, List.countP_singleton]
    simp only [releases, hevent, decide_false, Bool.false_eq_true, if_false] at hbalance ⊢
    omega
  · have hzero := h.handedOver hne
    show left = 0
    omega
  · exact nodup_snoc h.once hnew outcome
  · show call ∈ semaphore.waitQueue ↔ call < semaphore.calls + 1 ∧ _
    rw [h.waiting call]
    simp only [List.map_append, List.mem_append, List.map_cons, List.map_nil, List.mem_singleton, not_or]
    constructor
    · rintro ⟨hlt, hcall⟩
      exact ⟨by omega, hcall, by omega⟩
    · rintro ⟨hlt, hcall, hne⟩
      exact ⟨by omega, hcall⟩
  · show call < semaphore.calls + 1
    rcases List.mem_append.mp (List.map_append ▸ hcall) with hcall | hcall
    · exact Nat.lt_succ_of_lt (h.issued call hcall)
    · exact List.mem_singleton.mp hcall ▸ Nat.lt_succ_self _

theorem Conserved.enqueue (h : Conserved permits maxQueueSize events semaphore log) (hzero : semaphore.permits = 0)
    (hroom : semaphore.waitQueue.length < maxQueueSize) (timeout : AcquireTimeout) (signal : Option Bool)
    (hevent : event ≠ .release) :
    Conserved permits maxQueueSize (events ++ [event])
      (enqueue semaphore.calls timeout signal { semaphore with calls := semaphore.calls + 1 }) log := by
  have hnew : semaphore.calls ∉ log.map Settlement.call := fun hmem => Nat.lt_irrefl _ (h.issued _ hmem)
  have hlast : ∀ call ∈ semaphore.waitQueue, call < semaphore.calls := fun call hcall => ((h.waiting call).mp hcall).1
  refine ⟨?_, fun _ => hzero, h.once, fun call => ?_, fun call hcall => Nat.lt_succ_of_lt (h.issued call hcall), ?_, ?_,
    fun call hcall => ?_, fun call hcall => Nat.lt_succ_of_lt (h.known call hcall), fun call hcall => ?_, h.capacity⟩
  · have hbalance := h.balance
    simp only [PermitSemaphore.enqueue, releases, List.countP_append, List.countP_singleton, hevent, decide_false,
      Bool.false_eq_true, if_false] at hbalance ⊢
    omega
  · show call ∈ semaphore.waitQueue ++ [semaphore.calls] ↔ call < semaphore.calls + 1 ∧ _
    rw [List.mem_append, List.mem_singleton, h.waiting call]
    constructor
    · rintro (⟨hlt, hcall⟩ | rfl)
      · exact ⟨by omega, hcall⟩
      · exact ⟨by omega, hnew⟩
    · rintro ⟨hlt, hcall⟩
      by_cases heq : call = semaphore.calls
      · exact .inr heq
      · exact .inl ⟨by omega, hcall⟩
  · exact List.pairwise_append.mpr ⟨h.arrival, by simp, by simpa using hlast⟩
  · simpa [PermitSemaphore.enqueue] using Nat.succ_le_of_lt hroom
  · rcases List.mem_append.mp hcall with hcall | hcall
    · exact h.unsettled call hcall
    · rw [List.mem_singleton.mp hcall]
      exact fun hmem => Nat.lt_irrefl _ (h.known _ hmem)
  · simp only [PermitSemaphore.enqueue] at hcall ⊢
    refine List.mem_append.mpr ?_
    rcases hcall with hcall | hcall
    · split at hcall
      · rcases Finset.mem_insert.mp hcall with rfl | hcall
        · exact .inr List.mem_cons_self
        · exact .inl (h.reachable call (.inl hcall))
      · exact .inl (h.reachable call (.inl hcall))
    · split at hcall
      · rcases Finset.mem_insert.mp hcall with rfl | hcall
        · exact .inr List.mem_cons_self
        · exact .inl (h.reachable call (.inr hcall))
      · exact .inl (h.reachable call (.inr hcall))

/-! ## A step, and a run -/

theorem shiftUnsettled_of_unsettled {settled : Finset Nat} {waiter : Nat} (h : waiter ∉ settled) (queue : List Nat) :
    shiftUnsettled settled (waiter :: queue) = (some waiter, queue) :=
  if_neg h

theorem Conserved.release_eq (h : Conserved permits maxQueueSize events semaphore log) :
    (semaphore.waitQueue = [] ∧ release semaphore = ({ semaphore with permits := semaphore.permits + 1 }, [])) ∨
      ∃ waiter queue, semaphore.waitQueue = waiter :: queue ∧
        release semaphore = (PermitSemaphore.settle waiter semaphore, [⟨waiter, .acquired⟩]) := by
  unfold release
  cases hqueue : semaphore.waitQueue with
  | nil =>
    left
    refine ⟨rfl, ?_⟩
    simp [shiftUnsettled, ← hqueue]
  | cons waiter queue =>
    right
    have hunsettled : waiter ∉ semaphore.settled := h.unsettled waiter (hqueue ▸ List.mem_cons_self)
    have hnodup : (waiter :: queue).Nodup := hqueue ▸ h.arrival.imp Nat.ne_of_lt
    refine ⟨waiter, queue, rfl, ?_⟩
    rw [shiftUnsettled_of_unsettled hunsettled]
    simp [PermitSemaphore.settle, hqueue, List.erase_of_not_mem (List.nodup_cons.mp hnodup).1]

theorem Conserved.tryAcquire (h : Conserved permits maxQueueSize events semaphore log) (timeoutMs : TimeoutArgument)
    (signal : Option Bool) :
    Conserved permits maxQueueSize (events ++ [.tryAcquire timeoutMs signal]) (tryAcquire timeoutMs signal semaphore).1
      (log ++ (PermitSemaphore.tryAcquire timeoutMs signal semaphore).2) := by
  have hevent : Event.tryAcquire timeoutMs signal ≠ .release := nofun
  unfold PermitSemaphore.tryAcquire
  dsimp only
  split
  · exact h.answer (by simp) hevent
  · split
    · exact h.answer (by simp) hevent
    · split
      · exact h.answer (by simp; omega) hevent
      · rename_i hnone
        split
        · exact h.answer (by simp) hevent
        · rename_i hroom
          rw [List.append_nil]
          have hlt : semaphore.waitQueue.length < maxQueueSize := by
            have := h.capacity
            push Not at hroom
            omega
          exact h.enqueue (by omega) hlt _ _ hevent

theorem Conserved.giveUp (h : Conserved permits maxQueueSize events semaphore log) {waiter : Nat}
    (hreach : waiter ∈ semaphore.timers ∨ waiter ∈ semaphore.listeners) (outcome : Outcome) (houtcome : outcome ≠ .acquired)
    (event : Event) (hevent : event ≠ .release) :
    Conserved permits maxQueueSize (events ++ [event]) (giveUp waiter outcome semaphore).1
      (log ++ (PermitSemaphore.giveUp waiter outcome semaphore).2) := by
  have hwaiter := h.reachable waiter hreach
  rw [PermitSemaphore.giveUp, if_neg (h.unsettled waiter hwaiter)]
  exact h.settle hwaiter (iff_of_false houtcome hevent)

theorem conserved_step (h : Conserved permits maxQueueSize events semaphore log) {after : Semaphore}
    {emitted : List Settlement} (hstep : step semaphore event = some (after, emitted)) :
    Conserved permits maxQueueSize (events ++ [event]) after (log ++ emitted) := by
  cases event with
  | tryAcquire timeoutMs signal =>
    have hconserved := h.tryAcquire timeoutMs signal
    rwa [Option.some.inj hstep] at hconserved
  | release =>
    rw [step] at hstep
    rcases h.release_eq with ⟨hqueue, heq⟩ | ⟨waiter, queue, hqueue, heq⟩
    · rw [heq] at hstep
      obtain ⟨rfl, rfl⟩ := Prod.mk.inj (Option.some.inj hstep)
      rw [List.append_nil]
      refine ⟨?_, fun hne => absurd hqueue hne, h.once, h.waiting, h.issued, h.arrival, h.bounded, h.unsettled, h.known,
        h.reachable, h.capacity⟩
      have hbalance := h.balance
      simp only [releases, List.countP_append, List.countP_singleton, decide_true, if_true] at hbalance ⊢
      omega
    · rw [heq] at hstep
      obtain ⟨rfl, rfl⟩ := Prod.mk.inj (Option.some.inj hstep)
      exact h.settle (hqueue ▸ List.mem_cons_self) (iff_of_true rfl rfl)
  | timeout waiter =>
    obtain ⟨hreach, heq⟩ := Option.ite_none_right_eq_some.mp hstep
    have hconserved := h.giveUp (.inl hreach) .refused nofun (.timeout waiter) nofun
    rwa [Option.some.inj heq] at hconserved
  | abort waiter =>
    obtain ⟨hreach, heq⟩ := Option.ite_none_right_eq_some.mp hstep
    have hconserved := h.giveUp (.inr hreach) .aborted nofun (.abort waiter) nofun
    rwa [Option.some.inj heq] at hconserved

theorem Conserved.grant_first (h : Conserved permits maxQueueSize events semaphore log) {after : Semaphore}
    {emitted : List Settlement} (hstep : step semaphore event = some (after, emitted)) {call : Nat}
    (hgrant : ⟨call, .acquired⟩ ∈ emitted) : ∀ waiter ∈ semaphore.waitQueue, call ≤ waiter := by
  intro waiter hwaiter
  cases event with
  | tryAcquire timeoutMs signal =>
    -- Granted at once, so that a permit was there and nobody waited.
    have hzero := h.handedOver (List.ne_nil_of_mem hwaiter)
    have heq := Option.some.inj hstep
    unfold PermitSemaphore.tryAcquire at heq
    dsimp only at heq
    split at heq
    · obtain ⟨-, rfl⟩ := Prod.mk.inj heq
      simp at hgrant
    · rw [if_neg (by omega : ¬ 0 < semaphore.permits)] at heq
      repeat' split at heq
      all_goals
        obtain ⟨-, rfl⟩ := Prod.mk.inj heq
        simp at hgrant
  | release =>
    rw [step] at hstep
    rcases h.release_eq with ⟨hqueue, heq⟩ | ⟨first, queue, hqueue, heq⟩
    · rw [hqueue] at hwaiter
      cases hwaiter
    · rw [heq] at hstep
      obtain ⟨-, rfl⟩ := Prod.mk.inj (Option.some.inj hstep)
      have hcall : call = first := by simpa using hgrant
      rw [hqueue] at hwaiter
      rcases List.mem_cons.mp hwaiter with rfl | hwaiter
      · exact Nat.le_of_eq hcall
      · have hsorted := h.arrival
        rw [hqueue] at hsorted
        exact hcall ▸ Nat.le_of_lt (List.rel_of_pairwise_cons hsorted hwaiter)
  | timeout waiter' =>
    obtain ⟨-, heq⟩ := Option.ite_none_right_eq_some.mp hstep
    have hrefused := Option.some.inj heq
    unfold PermitSemaphore.giveUp at hrefused
    split at hrefused
    all_goals
      obtain ⟨-, rfl⟩ := Prod.mk.inj hrefused
      simp at hgrant
  | abort waiter' =>
    obtain ⟨-, heq⟩ := Option.ite_none_right_eq_some.mp hstep
    have haborted := Option.some.inj heq
    unfold PermitSemaphore.giveUp at haborted
    split at haborted
    all_goals
      obtain ⟨-, rfl⟩ := Prod.mk.inj haborted
      simp at hgrant

theorem conserved_run {semaphore : Semaphore} {log : List Settlement}
    (h : run permits maxQueueSize events = some (semaphore, log)) :
    Conserved permits maxQueueSize events semaphore log :=
  emitAll_invariant (fun events semaphore log => Conserved permits maxQueueSize events semaphore log) conserved_create
    (fun _ _ _ _ _ _ hconserved hstep => conserved_step hconserved hstep) h

/-- After any events no permit is lost or made up, no call is settled twice, the queue holds the calls that
still wait, in their order, and the next grant goes to the first of them. -/
theorem run_conserves {semaphore : Semaphore} {log : List Settlement}
    (h : run permits maxQueueSize events = some (semaphore, log)) :
    Conserved permits maxQueueSize events semaphore log ∧
      ∀ event after emitted call, step semaphore event = some (after, emitted) → ⟨call, .acquired⟩ ∈ emitted →
        ∀ waiter ∈ semaphore.waitQueue, call ≤ waiter :=
  ⟨conserved_run h, fun _ _ _ _ hstep hgrant => (conserved_run h).grant_first hstep hgrant⟩

/-- Two callers wait for the only permit; the first gives up, and the release goes to the second. -/
def contended : List Event :=
  [.tryAcquire .infinity none, .tryAcquire (.integer 5) none, .tryAcquire .infinity (some false), .timeout 1, .release]

theorem run_conserves_contended :
    ∃ semaphore, run 1 2 contended = some (semaphore, [⟨0, .acquired⟩, ⟨1, .refused⟩, ⟨2, .acquired⟩]) ∧
      Conserved 1 2 contended semaphore [⟨0, .acquired⟩, ⟨1, .refused⟩, ⟨2, .acquired⟩] := by
  have hlog : (run 1 2 contended).map Prod.snd = some [⟨0, .acquired⟩, ⟨1, .refused⟩, ⟨2, .acquired⟩] := by decide
  obtain ⟨⟨semaphore, log⟩, hrun, rfl⟩ := Option.map_eq_some_iff.mp hlog
  exact ⟨semaphore, hrun, (run_conserves hrun).1⟩

end Veryfront.PermitSemaphore
