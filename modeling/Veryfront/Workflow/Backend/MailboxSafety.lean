import Veryfront.Lib.Runs
import Veryfront.Workflow.Backend.Mailbox

/-!
# No buffered event is lost or delivered twice

The invariant of a run's mail, and what it says of every interleaving of the calls on the run with
any other work of the backend: each accepted event is buffered, claimed or consumed, once and in one
of the three places, and the buffered and claimed events together stay within the mailbox bound.
-/

namespace Veryfront.Workflow

open Veryfront.Lib

/-! ## Conservation -/

/-- `e` was published before `e'`. -/
def PublishedBefore (e e' : RunEventEnvelope) : Prop :=
  ∃ o o', e.publicationOrder = some o ∧ e'.publicationOrder = some o' ∧ o < o'

instance : IsTrans RunEventEnvelope PublishedBefore where
  trans := by
    rintro a b c ⟨o, o', ha, hb, hlt⟩ ⟨p, p', hb', hc, hlt'⟩
    obtain rfl : o' = p := Option.some.inj (hb.symm.trans hb')
    exact ⟨o, p', ha, hc, Nat.lt_trans hlt hlt'⟩

namespace RunMail

def claimedEvents (m : RunMail) : List RunEventEnvelope := m.claims.values.map RunEventDeliveryClaim.event

def Held (m : RunMail) (eventId : String) (claim : RunEventDeliveryClaim) : Prop :=
  claim.event.id = eventId ∧ ∃ wait ∈ m.waits, wait.id = claim.wait.id ∧ wait.status = .delivered ∧
    wait.claimedEventId = some eventId ∧ wait.claimedAt.isSome

structure Conserved (m : RunMail) (accepted consumed : List RunEventEnvelope) : Prop where
  conserved : (m.mailbox ++ m.claimedEvents ++ consumed).Perm accepted
  distinct : (accepted.map RunEventEnvelope.id).Nodup
  stamped : ∀ e ∈ accepted, ∃ o < m.nextOrder, e.publicationOrder = some o
  distinctOrders : (accepted.map RunEventEnvelope.publicationOrder).Nodup
  ordered : m.mailbox.Pairwise PublishedBefore
  held : ∀ eventId claim, m.claims.get? eventId = some claim → m.Held eventId claim
  distinctWaits : (m.waits.map PersistedPendingEventWait.id).Nodup

variable {m m' : RunMail} {accepted consumed A C : List RunEventEnvelope}

theorem Conserved.empty {waits : List PersistedPendingEventWait} {n : Nat}
    (h : (waits.map PersistedPendingEventWait.id).Nodup) : Conserved ⟨[], .empty, waits, n⟩ [] [] where
  conserved := .refl _
  distinct := List.nodup_nil
  stamped := by simp
  distinctOrders := List.nodup_nil
  ordered := List.Pairwise.nil
  held := by simp
  distinctWaits := h

theorem claimedEvents_set (m : RunMail) (eventId : String) (claim : RunEventDeliveryClaim) :
    ((m.claims.set eventId claim).values.map RunEventDeliveryClaim.event).Perm
      (claim.event :: (m.claims.erase eventId).values.map RunEventDeliveryClaim.event) :=
  (OrdMap.values_set_perm m.claims eventId claim).map _

variable {eventId : String}

theorem claimedEvents_erase {m : RunMail} {claim : RunEventDeliveryClaim}
    (h : m.claims.get? eventId = some claim) :
    m.claimedEvents.Perm (claim.event :: (m.claims.erase eventId).values.map RunEventDeliveryClaim.event) :=
  (OrdMap.values_erase_perm h).map _

namespace Conserved

theorem places (h : Conserved m A C) :
    ((m.mailbox ++ m.claimedEvents ++ C).map RunEventEnvelope.id).Nodup ∧
      ((m.mailbox ++ m.claimedEvents ++ C).map RunEventEnvelope.publicationOrder).Nodup :=
  ⟨(h.conserved.map _).nodup_iff.mpr h.distinct, (h.conserved.map _).nodup_iff.mpr h.distinctOrders⟩

theorem mem_accepted (h : Conserved m A C) {e : RunEventEnvelope} (he : e ∈ m.mailbox ∨ e ∈ m.claimedEvents) :
    e ∈ A := by
  apply h.conserved.subset
  rcases he with he | he <;> simp [he]

theorem claimed_mem {claim : RunEventDeliveryClaim} (hc : m.claims.get? eventId = some claim) :
    claim.event ∈ m.claimedEvents :=
  List.mem_map_of_mem ((OrdMap.mem_values _ _).mpr ⟨eventId, hc⟩)

theorem unclaimed (h : Conserved m A C) {e : RunEventEnvelope} (he : e ∈ m.mailbox) : m.claims.get? e.id = none := by
  by_contra hne
  obtain ⟨claim, hc⟩ := Option.ne_none_iff_exists'.mp hne
  have hid := (h.held e.id claim hc).1
  have hnd := h.places.1
  rw [List.append_assoc, List.map_append, List.nodup_append] at hnd
  refine hnd.2.2 e.id (List.mem_map_of_mem he) claim.event.id (List.mem_map_of_mem ?_) hid.symm
  exact List.mem_append_left _ (claimed_mem hc)

theorem wait_unique (h : Conserved m A C) {w w' : PersistedPendingEventWait} (hw : w ∈ m.waits)
    (hw' : w' ∈ m.waits) (hid : w.id = w'.id) : w = w' :=
  List.inj_on_of_nodup_map h.distinctWaits hw hw' hid

theorem claim_unique (h : Conserved m A C) {i j : String} {c d : RunEventDeliveryClaim}
    (hc : m.claims.get? i = some c) (hd : m.claims.get? j = some d) (hid : c.wait.id = d.wait.id) : i = j := by
  obtain ⟨-, w, hw, hwid, -, hwe, -⟩ := h.held i c hc
  obtain ⟨-, w', hw', hwid', -, hwe', -⟩ := h.held j d hd
  obtain rfl := h.wait_unique hw hw' (hwid.trans (hid.trans hwid'.symm))
  exact Option.some.inj (hwe.symm.trans hwe')

variable {f : PersistedPendingEventWait → PersistedPendingEventWait}

theorem held_frame {k : String}
    (hd : (m.waits.map PersistedPendingEventWait.id).Nodup) {claim : RunEventDeliveryClaim}
    (hheld : m.Held eventId claim) (hne : claim.wait.id ≠ k) {mailbox : List RunEventEnvelope}
    {claims : OrdMap String RunEventDeliveryClaim} {n : Nat} :
    Held ⟨mailbox, claims, modifyFirst (fun w => w.id = k) f m.waits, n⟩ eventId claim := by
  obtain ⟨hid, w, hw, hwid, hstatus⟩ := hheld
  refine ⟨hid, w, ?_, hwid, hstatus⟩
  exact (mem_modifyFirst_key hd k f w).mpr (.inl ⟨hw, hwid.trans_ne hne⟩)

theorem distinct_modified {k : String}
    (hd : (m.waits.map PersistedPendingEventWait.id).Nodup) (hf : ∀ w, (f w).id = w.id) :
    ((modifyFirst (fun w => w.id = k) f m.waits).map PersistedPendingEventWait.id).Nodup := by
  rwa [map_modifyFirst (fun w _ => hf w)]

variable {event : RunEventEnvelope}

theorem accept (h : Conserved m A C) (hnew : ∀ a ∈ A, a.id ≠ event.id)
    (horder : event.publicationOrder = some m.nextOrder) :
    Conserved { m with mailbox := m.mailbox ++ [event], nextOrder := m.nextOrder + 1 } (A ++ [event]) C where
  conserved := by
    have := h.conserved.append_right [event]
    refine List.Perm.trans ?_ this
    simp only [claimedEvents, List.append_assoc]
    exact (List.perm_append_left_iff _).mpr (List.perm_append_comm.trans (by simp [List.append_assoc]))
  distinct := by
    rw [List.map_append, List.nodup_append]
    refine ⟨h.distinct, by simp, ?_⟩
    simpa using hnew
  stamped := by
    intro e he
    rcases List.mem_append.mp he with he | he
    · obtain ⟨o, ho, heo⟩ := h.stamped e he
      exact ⟨o, Nat.lt_succ_of_lt ho, heo⟩
    · obtain rfl := List.mem_singleton.mp he
      exact ⟨m.nextOrder, Nat.lt_succ_self _, horder⟩
  distinctOrders := by
    rw [List.map_append, List.nodup_append]
    refine ⟨h.distinctOrders, by simp, ?_⟩
    simp only [List.mem_map, List.map_cons, List.map_nil, List.mem_singleton, forall_eq, forall_exists_index,
      and_imp, forall_apply_eq_imp_iff₂, horder]
    intro e he heq
    obtain ⟨o, ho, heo⟩ := h.stamped e he
    rw [heo] at heq
    have := Option.some.inj heq
    omega
  ordered := by
    rw [List.pairwise_append]
    refine ⟨h.ordered, List.pairwise_singleton _ _, ?_⟩
    intro e he e' he'
    obtain rfl := List.mem_singleton.mp he'
    obtain ⟨o, ho, heo⟩ := h.stamped e (h.mem_accepted (.inl he))
    exact ⟨o, _, heo, horder, ho⟩
  held := h.held
  distinctWaits := h.distinctWaits

theorem discard {rest : List RunEventEnvelope} (h : Conserved m A C)
    (hperm : m.mailbox.Perm (event :: rest)) (hsub : rest.Sublist m.mailbox) :
    Conserved { m with mailbox := rest } A (C ++ [event]) where
  conserved := by
    refine List.Perm.trans ?_ h.conserved
    refine List.Perm.trans ?_ ((hperm.append_right _).append_right _).symm
    simp only [claimedEvents, List.cons_append, ← List.append_assoc]
    exact List.perm_append_singleton _ _
  distinct := h.distinct
  stamped := h.stamped
  distinctOrders := h.distinctOrders
  ordered := h.ordered.sublist hsub
  held := h.held
  distinctWaits := h.distinctWaits

variable {wait : PersistedPendingEventWait}

theorem claim {now : Timestamp}
    {rest : List RunEventEnvelope} (h : Conserved m A C)
    (hperm : m.mailbox.Perm (event :: rest)) (hsub : rest.Sublist m.mailbox)
    (hwait : wait ∈ m.waits) (hpending : wait.status = .pending) :
    Conserved
      { m with
        mailbox := rest
        claims := m.claims.set event.id ⟨MemoryBackend.claimWait now event.id wait, event, now⟩
        waits := modifyFirst (fun w => w.id = wait.id) (MemoryBackend.claimWait now event.id) m.waits } A C where
  conserved := by
    have hmem : event ∈ m.mailbox := hperm.symm.subset List.mem_cons_self
    have hclaimed := claimedEvents_set m event.id ⟨MemoryBackend.claimWait now event.id wait, event, now⟩
    rw [OrdMap.erase_of_get?_none (h.unclaimed hmem)] at hclaimed
    refine List.Perm.trans ?_ h.conserved
    refine List.Perm.append_right _ ?_
    refine ((hclaimed.append_left rest).trans List.perm_middle).trans ?_
    exact (hperm.append_right _).symm
  distinct := h.distinct
  stamped := h.stamped
  distinctOrders := h.distinctOrders
  ordered := h.ordered.sublist hsub
  held := by
    intro eventId claim hc
    rw [OrdMap.get?_set] at hc
    split at hc
    · rename_i heq
      cases hc
      refine ⟨heq.symm, MemoryBackend.claimWait now event.id wait, ?_, rfl, rfl, by rw [heq]; rfl, rfl⟩
      exact (mem_modifyFirst_key h.distinctWaits wait.id _ _).mpr (.inr ⟨wait, hwait, rfl, rfl⟩)
    · refine held_frame h.distinctWaits (h.held eventId claim hc) ?_
      -- a claimed wait is delivered, and this one was pending
      intro hid
      obtain ⟨-, w, hw, hwid, hdelivered, -⟩ := h.held eventId claim hc
      obtain rfl := h.wait_unique hw hwait (hwid.trans hid)
      rw [hpending] at hdelivered
      cases hdelivered
  distinctWaits := distinct_modified h.distinctWaits fun _ => rfl

theorem held_after_release {claim : RunEventDeliveryClaim} {mailbox : List RunEventEnvelope} (h : Conserved m A C)
    (hc : m.claims.get? eventId = some claim) (i : String) (c : RunEventDeliveryClaim)
    (hi : (m.claims.erase eventId).get? i = some c) :
    Held ⟨mailbox, m.claims.erase eventId, modifyFirst (fun w => w.id = claim.wait.id) f m.waits, m.nextOrder⟩ i c := by
  rw [OrdMap.get?_erase] at hi
  split at hi
  · cases hi
  · rename_i hne
    exact held_frame h.distinctWaits (h.held i c hi) fun hid => hne (h.claim_unique hi hc hid)

theorem restored_ordered {claim : RunEventDeliveryClaim} (h : Conserved m A C)
    (hc : m.claims.get? eventId = some claim) :
    (restoreRetainedRunEvent m.mailbox claim.event).Pairwise PublishedBefore := by
  obtain ⟨o, -, ho⟩ := h.stamped claim.event (h.mem_accepted (.inr (claimed_mem hc)))
  have hnd := h.places.2
  rw [List.append_assoc, List.map_append, List.nodup_append] at hnd
  refine pairwise_insertBefore h.ordered ?_ ?_
  · intro e he hafter
    obtain ⟨o', -, ho'⟩ := h.stamped e (h.mem_accepted (.inl he))
    simp only [publishedAfter, ho, ho', decide_eq_true_eq] at hafter
    exact ⟨o, o', ho, ho', hafter⟩
  · intro e he hbefore
    obtain ⟨o', -, ho'⟩ := h.stamped e (h.mem_accepted (.inl he))
    simp only [publishedAfter, ho, ho', decide_eq_false_iff_not] at hbefore
    have hne : o' ≠ o := by
      rintro rfl
      exact hnd.2.2 _ (List.mem_map_of_mem he) _
        (List.mem_map_of_mem (List.mem_append_left _ (claimed_mem hc))) (ho'.trans ho.symm)
    exact ⟨o', o, ho', ho, by omega⟩

theorem rollBack {claim : RunEventDeliveryClaim} (h : Conserved m A C) (reopened : Bool)
    (hc : m.claims.get? eventId = some claim) :
    Conserved
      { m with
        mailbox := restoreRetainedRunEvent m.mailbox claim.event
        claims := m.claims.erase eventId
        waits := if reopened then modifyFirst (fun w => w.id = claim.wait.id) MemoryBackend.reopenWait m.waits
          else m.waits } A C where
  conserved := by
    refine List.Perm.trans ?_ h.conserved
    refine List.Perm.append_right _ ?_
    refine ((insertBefore_perm _ _ _).append_right _).trans ?_
    exact List.perm_middle.symm.trans ((claimedEvents_erase hc).symm.append_left _)
  distinct := h.distinct
  stamped := h.stamped
  distinctOrders := h.distinctOrders
  ordered := h.restored_ordered hc
  held := by
    intro i c hi
    cases reopened with
    | true => exact h.held_after_release hc i c hi
    | false =>
      rw [OrdMap.get?_erase] at hi
      split at hi
      · cases hi
      · exact h.held i c hi
  distinctWaits := by
    cases reopened with
    | true => exact distinct_modified h.distinctWaits fun _ => rfl
    | false => exact h.distinctWaits

theorem settle {claim : RunEventDeliveryClaim} (h : Conserved m A C) (delivered : Bool)
    (hc : m.claims.get? eventId = some claim) :
    Conserved
      { m with
        claims := m.claims.erase eventId
        waits := modifyFirst (fun w => w.id = claim.wait.id)
          (MemoryBackend.settleClaimedWait delivered eventId) m.waits } A (C ++ [claim.event]) where
  conserved := by
    refine List.Perm.trans ?_ h.conserved
    simp only [List.append_assoc]
    refine List.Perm.append_left _ ?_
    refine List.Perm.trans ?_ ((claimedEvents_erase hc).append_right _).symm
    exact (List.perm_append_singleton _ _).append_left _ |>.trans List.perm_middle
  distinct := h.distinct
  stamped := h.stamped
  distinctOrders := h.distinctOrders
  ordered := h.ordered
  held := fun i c hi => h.held_after_release hc i c hi
  distinctWaits := distinct_modified h.distinctWaits fun _ => rfl

theorem reserve {claim : RunEventDeliveryClaim} (h : Conserved m A C) (at_ : Timestamp)
    (hc : m.claims.get? eventId = some claim) :
    Conserved
      { m with
        claims := m.claims.set eventId
          { claim with wait := { claim.wait with recoveryClaimedAt := some at_ } }
        waits := modifyFirst (fun w => w.id = claim.wait.id)
          (fun w => { w with recoveryClaimedAt := some at_ }) m.waits } A C where
  conserved := by
    refine List.Perm.trans ?_ h.conserved
    refine List.Perm.append_right _ (List.Perm.append_left _ ?_)
    exact (claimedEvents_set m eventId _).trans (claimedEvents_erase hc).symm
  distinct := h.distinct
  stamped := h.stamped
  distinctOrders := h.distinctOrders
  ordered := h.ordered
  held := by
    intro i c hi
    rw [OrdMap.get?_set] at hi
    split at hi
    · rename_i heq
      subst heq
      cases hi
      obtain ⟨hid, w, hw, hwid, hstatus⟩ := h.held i claim hc
      refine ⟨hid, { w with recoveryClaimedAt := some at_ }, ?_, hwid, hstatus⟩
      exact (mem_modifyFirst_key h.distinctWaits _ _ _).mpr (.inr ⟨w, hw, hwid, rfl⟩)
    · rename_i hne
      exact held_frame h.distinctWaits (h.held i c hi) fun hid => hne (h.claim_unique hi hc hid)
  distinctWaits := distinct_modified h.distinctWaits fun _ => rfl

theorem resolve (h : Conserved m A C) (status : EventWaitStatus)
    (claimedAt : PersistedPendingEventWait → Option Timestamp) (hwait : wait ∈ m.waits)
    (hpending : wait.status = .pending) :
    Conserved
      { m with
        waits := modifyFirst (fun w => w.id = wait.id)
          (fun w => { w with status := status, claimedAt := claimedAt w }) m.waits } A C where
  conserved := h.conserved
  distinct := h.distinct
  stamped := h.stamped
  distinctOrders := h.distinctOrders
  ordered := h.ordered
  held := by
    intro i c hi
    refine held_frame h.distinctWaits (h.held i c hi) ?_
    intro hid
    obtain ⟨-, w, hw, hwid, hdelivered, -⟩ := h.held i c hi
    obtain rfl := h.wait_unique hw hwait (hwid.trans hid)
    rw [hpending] at hdelivered
    cases hdelivered
  distinctWaits := distinct_modified h.distinctWaits fun _ => rfl

theorem park {kept : List PersistedPendingEventWait} (h : Conserved m A C)
    (hsub : kept.Sublist m.waits) (hkept : ∀ w ∈ m.waits, isResolved w = false → w ∈ kept)
    (hnew : ∀ w ∈ m.waits, w.id ≠ wait.id) : Conserved { m with waits := kept ++ [wait] } A C where
  conserved := h.conserved
  distinct := h.distinct
  stamped := h.stamped
  distinctOrders := h.distinctOrders
  ordered := h.ordered
  held := by
    intro i c hi
    obtain ⟨hid, w, hw, hwid, hdelivered, hevent, hclaimed⟩ := h.held i c hi
    refine ⟨hid, w, List.mem_append_left _ (hkept w hw ?_), hwid, hdelivered, hevent, hclaimed⟩
    obtain ⟨t, ht⟩ := Option.isSome_iff_exists.mp hclaimed
    simp [isResolved, ht]
  distinctWaits := by
    rw [List.map_append, List.nodup_append]
    refine ⟨h.distinctWaits.sublist (hsub.map _), by simp, ?_⟩
    simpa using fun w hw => hnew w (hsub.subset hw)

theorem skip {n : Nat} (h : Conserved m A C) (hn : m.nextOrder ≤ n) :
    Conserved { m with nextOrder := n } A C where
  conserved := h.conserved
  distinct := h.distinct
  stamped := by
    intro e he
    obtain ⟨o, ho, heo⟩ := h.stamped e he
    exact ⟨o, Nat.lt_of_lt_of_le ho hn, heo⟩
  distinctOrders := h.distinctOrders
  ordered := h.ordered
  held := h.held
  distinctWaits := h.distinctWaits

/-- One move, whose newly accepted events have ids of their own, keeps every event in its one place. -/
theorem step (h : Conserved m A C) (hstep : MailStep m accepted consumed m')
    (hnew : ∀ e ∈ accepted, ∀ a ∈ A, a.id ≠ e.id) : Conserved m' (A ++ accepted) (C ++ consumed) := by
  cases hstep with
  | accept _ horder =>
    simpa using h.accept (hnew _ List.mem_cons_self) horder
  | discard hperm hsub => simpa using h.discard hperm hsub
  | claim hperm hsub hwait hpending => simpa using h.claim hperm hsub hwait hpending
  | rollBack reopened hc => simpa using h.rollBack reopened hc
  | settle delivered hc => simpa using h.settle delivered hc
  | reserve at_ hc => simpa using h.reserve at_ hc
  | resolve status claimedAt hwait hpending => simpa using h.resolve status claimedAt hwait hpending
  | park hsub hkept hwait => simpa using h.park hsub hkept hwait
  | skip hn => simpa using h.skip hn

end Conserved

end RunMail

/-! ## Work that leaves the mail alone -/

/-- Nothing of the run's mail changed; the publication counter may have moved on. -/
def SameMail (r : String) (b b' : MemoryBackend) : Prop :=
  ∃ n ≥ b.nextRunEventPublicationOrder, b'.mailOf r = { b.mailOf r with nextOrder := n }

/-! ## Every interleaving -/

structure MailboxWorld where
  backend : MemoryBackend
  accepted : List RunEventEnvelope
  consumed : List RunEventEnvelope

def MailboxCall.Fresh (r : String) (w : MailboxWorld) : MailboxCall → Prop
  | appendRunEvent event => ∀ e ∈ w.accepted, e.id ≠ event.id
  | c => c.NewWait r w.backend

def MailboxWorld.afterCall (r : String) (w : MailboxWorld) (c : MailboxCall) : MailboxWorld :=
  ⟨c.after r w.backend, w.accepted ++ c.accepted r w.backend, w.consumed ++ c.consumed r w.backend⟩

/-- A call on the run, or any other work that leaves its mail alone. -/
inductive MailboxStep (r : String) : MailboxWorld → Option MailboxCall → MailboxWorld → Prop
  | call {w : MailboxWorld} (c : MailboxCall) : c.Fresh r w → MailboxStep r w (some c) (w.afterCall r c)
  | other {w : MailboxWorld} {b : MemoryBackend} : SameMail r w.backend b →
      MailboxStep r w none { w with backend := b }

/-- Nothing was ever buffered or claimed for the run, and its waits have ids of their own. -/
def MemoryBackend.NoMailYet (b : MemoryBackend) (r : String) : Prop :=
  b.mailboxOf r = [] ∧ b.claimsOf r = .empty ∧ ((b.eventWaitsOf r).map PersistedPendingEventWait.id).Nodup

namespace MailboxWorld

variable (r : String) (w : MailboxWorld)

def claimedEvents : List RunEventEnvelope := (w.backend.claimsOf r).values.map RunEventDeliveryClaim.event

def occurrences (eventId : String) : Nat :=
  (w.backend.mailboxOf r).countP (fun e => e.id = eventId) +
    (w.claimedEvents r).countP (fun e => e.id = eventId) + w.consumed.countP fun e => e.id = eventId

structure EventsConserved : Prop where
  onePlace : ∀ e ∈ w.accepted, w.occurrences r e.id = 1
  noneInvented : ∀ e, e ∈ w.backend.mailboxOf r ∨ e ∈ w.claimedEvents r ∨ e ∈ w.consumed → e ∈ w.accepted
  publicationOrder : (w.backend.mailboxOf r).Pairwise PublishedBefore
  claimsHeld : ∀ eventId claim, (w.backend.claimsOf r).get? eventId = some claim → claim.event.id = eventId ∧
    ∃ wait ∈ w.backend.eventWaitsOf r, wait.id = claim.wait.id ∧ wait.status = .delivered ∧
      wait.claimedEventId = some eventId
  oneClaimPerWait : ∀ i j c d, (w.backend.claimsOf r).get? i = some c → (w.backend.claimsOf r).get? j = some d →
    c.wait.id = d.wait.id → i = j

end MailboxWorld

theorem MailboxStep.conserved {r : String} {w w' : MailboxWorld} {c : Option MailboxCall}
    (h : (w.backend.mailOf r).Conserved w.accepted w.consumed) (hstep : MailboxStep r w c w') :
    (w'.backend.mailOf r).Conserved w'.accepted w'.consumed := by
  cases hstep with
  | call c hfresh =>
    refine h.step (MailboxCall.move (r := r) ?_) ?_
    · cases c <;> first | exact hfresh | trivial
    · cases c with
      | appendRunEvent event =>
        intro e he a ha
        rw [MailboxCall.accepted] at he
        split at he
        · rw [List.mem_singleton.mp he]
          exact hfresh a ha
        · simp at he
      | _ => simp [MailboxCall.accepted]
  | other hsame =>
    obtain ⟨n, hn, hview⟩ := hsame
    rw [hview]
    exact h.skip hn

theorem run_conserved {r : String} {b : MemoryBackend} (hstart : b.NoMailYet r)
    {calls : List (Option MailboxCall)} {w : MailboxWorld} (hrun : Run (MailboxStep r) ⟨b, [], []⟩ calls w) :
    (w.backend.mailOf r).Conserved w.accepted w.consumed := by
  refine Run.invariant (fun w => (w.backend.mailOf r).Conserved w.accepted w.consumed) ?_ ?_ hrun
  · obtain ⟨hm, hc, hw⟩ := hstart
    simp only [MemoryBackend.mailOf, hm, hc]
    exact .empty hw
  · intro w c w' h hstep
    exact hstep.conserved h

/-- However the calls on a run interleave with each other and with other work, every accepted
event is at every moment in exactly one place, the mailbox is in publication order, and every
outstanding claim is held by a delivered wait of its own. -/
theorem run_events_conserved {r : String} {b : MemoryBackend} (hstart : b.NoMailYet r)
    {calls : List (Option MailboxCall)} {w : MailboxWorld} (hrun : Run (MailboxStep r) ⟨b, [], []⟩ calls w) :
    w.EventsConserved r := by
  have h := run_conserved hstart hrun
  refine ⟨?_, ?_, h.ordered, ?_, fun i j c d => h.claim_unique⟩
  · intro e he
    have hcount : (w.accepted.countP fun a => a.id = e.id) = 1 := countP_key_eq_one h.distinct he
    rw [← h.conserved.countP_eq, List.countP_append, List.countP_append] at hcount
    exact hcount
  · intro e he
    apply h.conserved.subset
    rcases he with he | he | he
    · exact List.mem_append_left _ (List.mem_append_left _ he)
    · exact List.mem_append_left _ (List.mem_append_right _ he)
    · exact List.mem_append_right _ he
  · intro eventId claim hc
    obtain ⟨hid, wait, hwait, hwid, hdelivered, hevent, -⟩ := h.held eventId claim hc
    exact ⟨hid, wait, hwait, hwid, hdelivered, hevent⟩

/-- A wait that parks, an event that is published, and the claim that joins them. -/
theorem run_events_conserved_claimed :
    let wait : PersistedPendingEventWait := ⟨"w", "run", "n", "go", .event, 0, none, .pending, some "i", none,
      none, none, none, none⟩
    let w := ((MailboxWorld.mk {} [] []).afterCall "run" (.savePendingEventWait wait)).afterCall "run"
      (.appendRunEvent ⟨"e", "go", none, 1, none⟩) |>.afterCall "run" (.claimRunEventForWait 2 "w" "go" none)
    (w.backend.claimsOf "run").size = 1 ∧ w.EventsConserved "run" := by
  refine ⟨by decide, run_events_conserved (b := {}) ⟨rfl, rfl, List.nodup_nil⟩
    (.snoc (.snoc (.snoc .nil (.call _ ?_)) (.call _ ?_)) (.call _ trivial))⟩
  · intro w hw
    cases hw
  · intro e he
    cases he

/-! ## The capacity bound -/

def RunMail.Bounded (m : RunMail) : Prop :=
  m.mailbox.length + m.claims.size ≤ MAX_WORKFLOW_RUN_EVENT_MAILBOX_ENTRIES

theorem MailStep.bounded {m m' : RunMail} {A C : List RunEventEnvelope} (h : m.Bounded) (hstep : MailStep m A C m') :
    m'.Bounded := by
  have herase : ∀ {i : String} {c : RunEventDeliveryClaim}, m.claims.get? i = some c →
      (m.claims.erase i).size + 1 = m.claims.size := by
    intro i c hc
    have hsize := (OrdMap.values_erase_perm hc).length_eq
    simpa [OrdMap.values, OrdMap.size] using hsize.symm
  unfold RunMail.Bounded at h ⊢
  cases hstep with
  | accept hroom => simp only [List.length_append, List.length_singleton]; omega
  | discard hperm =>
    have := hperm.length_eq
    simp only [List.length_cons] at this ⊢
    omega
  | claim hperm =>
    have := hperm.length_eq
    simp only [List.length_cons, OrdMap.size_set] at this ⊢
    split <;> omega
  | @rollBack _ claim reopened hc =>
    have hlen := (insertBefore_perm (publishedAfter claim.event) claim.event m.mailbox).length_eq
    have := herase hc
    simp only [restoreRetainedRunEvent, hlen, List.length_cons]
    omega
  | settle delivered hc =>
    have := herase hc
    simp only
    omega
  | reserve at_ hc =>
    have hcontains : m.claims.contains _ = true := Option.isSome_iff_exists.mpr ⟨_, hc⟩
    simp only [OrdMap.size_set, hcontains, if_true]
    exact h
  | resolve => exact h
  | park => exact h
  | skip => exact h

theorem run_bounded {r : String} {b : MemoryBackend} (hstart : b.NoMailYet r)
    {calls : List (Option MailboxCall)} {w : MailboxWorld} (hrun : Run (MailboxStep r) ⟨b, [], []⟩ calls w) :
    (w.backend.mailOf r).Bounded := by
  refine Run.invariant (fun w => (w.backend.mailOf r).Bounded) ?_ ?_ hrun
  · obtain ⟨hm, hc, -⟩ := hstart
    simp only [MemoryBackend.mailOf, hm, hc, RunMail.Bounded]
    exact Nat.zero_le _
  · intro w c w' h hstep
    cases hstep with
    | call c hfresh =>
      refine (MailboxCall.move (r := r) ?_).bounded h
      cases c <;> first | exact hfresh | trivial
    | other hsame =>
      obtain ⟨n, hn, hview⟩ := hsame
      rw [hview]
      exact h

/-- Buffered and claimed events together stay within the bound of one mailbox. An append is
refused only at that bound or at the bound on mailboxes, and then leaves the run's mail alone. -/
theorem mailbox_bounded {r : String} {b : MemoryBackend} (hstart : b.NoMailYet r)
    {calls : List (Option MailboxCall)} {w : MailboxWorld} (hrun : Run (MailboxStep r) ⟨b, [], []⟩ calls w) :
    (w.backend.mailboxOf r).length + (w.backend.claimsOf r).size ≤ MAX_WORKFLOW_RUN_EVENT_MAILBOX_ENTRIES ∧
    ∀ event e, (w.backend.appendRunEvent r event).1 = .error e →
      ((w.backend.mailboxOf r).length + (w.backend.claimsOf r).size = MAX_WORKFLOW_RUN_EVENT_MAILBOX_ENTRIES ∨
        w.backend.runEvents.size ≥ MAX_WORKFLOW_RUN_EVENT_MAILBOXES) ∧
      (w.backend.appendRunEvent r event).2.mailboxOf r = w.backend.mailboxOf r ∧
      (w.backend.appendRunEvent r event).2.claimsOf r = w.backend.claimsOf r := by
  have hbound : (w.backend.mailboxOf r).length + (w.backend.claimsOf r).size ≤ _ := run_bounded hstart hrun
  refine ⟨hbound, fun event e herr => ?_⟩
  rcases w.backend.appendRunEvent_cases r event with ⟨hok, -⟩ | ⟨-, hfull, n, -, hview⟩
  · rw [hok] at herr
    cases herr
  · refine ⟨?_, congrArg RunMail.mailbox hview, congrArg RunMail.claims hview⟩
    rcases hfull with hfull | hfull
    · exact .inl (Nat.le_antisymm hbound hfull)
    · exact .inr hfull

theorem appendRunEvent_of_room {b : MemoryBackend} {r : String} (event : RunEventEnvelope) (hmailbox : b.mailboxOf r ≠ [])
    (hroom : (b.mailboxOf r).length + (b.claimsOf r).size < MAX_WORKFLOW_RUN_EVENT_MAILBOX_ENTRIES) :
    (b.appendRunEvent r event).1 = .ok () := by
  have hcontains : b.runEvents.contains r = true := by
    rw [OrdMap.contains, Option.isSome_iff_ne_none]
    intro hnone
    rw [MemoryBackend.mailboxOf, hnone] at hmailbox
    exact hmailbox rfl
  have hwith : b.withRoom r = b := if_pos hcontains
  unfold MemoryBackend.appendRunEvent
  simp only [hwith, hcontains, Bool.not_true, Bool.false_eq_true, false_and, if_false]
  rw [appendRetainedRunEvent, if_neg]
  exact Nat.not_le.mpr hroom

/-- The claim of a parked wait is rolled back, and more events follow. -/
def filledMailbox : Nat → MailboxWorld
  | 0 =>
    ((((MailboxWorld.mk {} [] []).afterCall "run" (.savePendingEventWait ⟨"w", "run", "n", "go", .event, 0, none, .pending, some "i",
      none, none, none, none, none⟩)).afterCall "run" (.appendRunEvent ⟨"", "go", none, 1, none⟩)).afterCall "run"
      (.claimRunEventForWait 2 "w" "go" none)).afterCall "run" (.restoreRunEventDelivery "w" ⟨"", "go", none, 1, none⟩)
  | n + 1 => (filledMailbox n).afterCall "run" (.appendRunEvent ⟨.ofList (.replicate (n + 1) 'e'), "go", none, 1, none⟩)

theorem run_filledMailbox : ∀ n < MAX_WORKFLOW_RUN_EVENT_MAILBOX_ENTRIES,
    (∃ calls, Run (MailboxStep "run") ⟨{}, [], []⟩ calls (filledMailbox n)) ∧
      ((filledMailbox n).backend.mailboxOf "run").length = n + 1 ∧ ((filledMailbox n).backend.claimsOf "run").size = 0 ∧
      ∀ event ∈ (filledMailbox n).accepted, event.id.length ≤ n := by
  intro n
  induction n with
  | zero =>
    intro _
    refine ⟨⟨_, .snoc (.snoc (.snoc (.snoc .nil (.call (.savePendingEventWait _) ?_)) (.call (.appendRunEvent _) ?_))
      (.call (.claimRunEventForWait ..) trivial)) (.call (.restoreRunEventDelivery ..) trivial)⟩, by decide⟩
    · exact fun _ hwait => nomatch hwait
    · exact fun _ hevent => nomatch hevent
  | succ n ih =>
    intro hn
    obtain ⟨⟨calls, hrun⟩, hmailbox, hclaims, hids⟩ := ih (Nat.lt_of_succ_lt hn)
    have hfresh : (MailboxCall.appendRunEvent ⟨.ofList (.replicate (n + 1) 'e'), "go", none, 1, none⟩).Fresh "run" (filledMailbox n) := by
      intro event hevent heq
      have hlength := hids event hevent
      rw [heq, String.length_ofList, List.length_replicate] at hlength
      omega
    have hroom : ((filledMailbox n).backend.mailboxOf "run").length + ((filledMailbox n).backend.claimsOf "run").size <
        MAX_WORKFLOW_RUN_EVENT_MAILBOX_ENTRIES := by omega
    have hok := appendRunEvent_of_room ⟨.ofList (.replicate (n + 1) 'e'), "go", none, 1, none⟩
      (List.ne_nil_of_length_pos (by omega)) hroom
    refine ⟨⟨_, .snoc hrun (.call _ hfresh)⟩, ?_⟩
    rcases (filledMailbox n).backend.appendRunEvent_cases "run" ⟨.ofList (.replicate (n + 1) 'e'), "go", none, 1, none⟩ with
      ⟨-, -, hview⟩ | ⟨⟨e, herr⟩, -⟩
    · have hmailbox' := congrArg (fun mail : RunMail => mail.mailbox.length) hview
      have hclaims' := congrArg (fun mail : RunMail => mail.claims.size) hview
      refine ⟨hmailbox'.trans (by simp [hmailbox]), hclaims'.trans hclaims, fun event hevent => ?_⟩
      simp only [filledMailbox, MailboxWorld.afterCall, MailboxCall.accepted, hok, List.mem_append, List.mem_singleton] at hevent
      rcases hevent with hevent | rfl
      · exact Nat.le_succ_of_le (hids event hevent)
      · simp
    · rw [hok] at herr
      cases herr

theorem mailbox_bounded_buffered :
    let w := filledMailbox 999
    (w.backend.mailboxOf "run").length + (w.backend.claimsOf "run").size ≤ MAX_WORKFLOW_RUN_EVENT_MAILBOX_ENTRIES ∧
      (∃ e, (w.backend.appendRunEvent "run" ⟨"f", "go", none, 1, none⟩).1 = .error e) ∧
      (w.backend.appendRunEvent "run" ⟨"f", "go", none, 1, none⟩).2.mailboxOf "run" = w.backend.mailboxOf "run" := by
  obtain ⟨⟨calls, hrun⟩, hmailbox, hclaims, -⟩ := run_filledMailbox 999 (by decide)
  have hrefused : ∃ e, ((filledMailbox 999).backend.appendRunEvent "run" ⟨"f", "go", none, 1, none⟩).1 = .error e := by
    rcases (filledMailbox 999).backend.appendRunEvent_cases "run" ⟨"f", "go", none, 1, none⟩ with ⟨-, hroom, -⟩ | ⟨herr, -⟩
    · rw [hmailbox, hclaims] at hroom
      exact absurd hroom (by decide)
    · exact herr
  have h := mailbox_bounded (b := {}) ⟨rfl, rfl, List.nodup_nil⟩ hrun
  obtain ⟨e, herr⟩ := hrefused
  exact ⟨h.1, ⟨e, herr⟩, (h.2 _ e herr).2.1⟩

end Veryfront.Workflow
