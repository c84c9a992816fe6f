import Veryfront.Workflow.Backend.Memory

/-!
# Run-event mailboxes

What the in-memory backend holds of one run's events, as one small machine: the mailbox, the
outstanding delivery claims, and the waits that hold the claims. Every backend call on the run is a
step of the machine, and no other call moves it.
-/

namespace Veryfront.Workflow

open Veryfront.Lib

structure RunMail where
  mailbox : List RunEventEnvelope
  claims : OrdMap String RunEventDeliveryClaim
  waits : List PersistedPendingEventWait
  nextOrder : Nat

namespace MemoryBackend

def mailOf (b : MemoryBackend) (r : String) : RunMail :=
  ⟨b.mailboxOf r, b.claimsOf r, b.eventWaitsOf r, b.nextRunEventPublicationOrder⟩

variable (b : MemoryBackend) (r q : String)

/-! ## The view under each update -/

@[simp] theorem mailOf_advance : (b.advanceRunRetentionRevision q).mailOf r = b.mailOf r := by
  unfold advanceRunRetentionRevision; split <;> rfl

@[simp] theorem mailOf_setMailbox (m : List RunEventEnvelope) :
    (b.setMailbox q m).mailOf r = if r = q then { b.mailOf r with mailbox := m } else b.mailOf r := by
  by_cases h : r = q <;> simp [mailOf, setMailbox, mailboxOf, claimsOf, eventWaitsOf, h]

@[simp] theorem mailOf_setEventWaits (ws : List PersistedPendingEventWait) :
    (b.setEventWaits q ws).mailOf r = if r = q then { b.mailOf r with waits := ws } else b.mailOf r := by
  by_cases h : r = q <;> simp [mailOf, setEventWaits, mailboxOf, claimsOf, eventWaitsOf, h]

@[simp] theorem mailOf_changeEventWait (w : String) (f : PersistedPendingEventWait → PersistedPendingEventWait) :
    (b.changeEventWait q w f).mailOf r =
      if r = q then { b.mailOf r with waits := modifyFirst (fun x => x.id = w) f (b.mailOf r).waits }
      else b.mailOf r := by
  rw [changeEventWait, mailOf_setEventWaits]
  split
  · rename_i h; subst h; rfl
  · rfl

@[simp] theorem mailOf_setClaims (c : OrdMap String RunEventDeliveryClaim) :
    mailOf { b with runEventClaims := b.runEventClaims.set q c } r =
      if r = q then { b.mailOf r with claims := c } else b.mailOf r := by
  by_cases h : r = q <;> simp [mailOf, mailboxOf, claimsOf, eventWaitsOf, h]

@[simp] theorem mailOf_releaseRunEventClaim (e : String) :
    (b.releaseRunEventClaim q e).mailOf r =
      if r = q then { b.mailOf r with claims := (b.mailOf r).claims.erase e } else b.mailOf r := by
  cases hc : b.runEventClaims.get? q with
  | none =>
    simp only [releaseRunEventClaim, hc]
    by_cases h : r = q
    · subst h
      have he : b.claimsOf r = .empty := by simp [claimsOf, hc]
      have hr : (b.claimsOf r).erase e = b.claimsOf r := OrdMap.erase_of_get?_none (by simp [he])
      simp [mailOf, hr]
    · simp [h]
  | some claims =>
    simp only [releaseRunEventClaim, hc]
    by_cases h : r = q
    · subst h
      by_cases hz : (claims.erase e).size = 0
      · rw [if_pos hz]
        simp [mailOf, mailboxOf, eventWaitsOf, claimsOf, hc, OrdMap.eq_empty_of_size hz]
      · rw [if_neg hz]
        simp [mailOf, mailboxOf, eventWaitsOf, claimsOf, hc]
    · by_cases hz : (claims.erase e).size = 0
      · rw [if_pos hz]
        simp [mailOf, mailboxOf, eventWaitsOf, claimsOf, h]
      · rw [if_neg hz]
        simp [mailOf, mailboxOf, eventWaitsOf, claimsOf, h]

@[simp] theorem mailOf_deleteEmptyRunEventMailbox :
    (b.deleteEmptyRunEventMailbox q).mailOf r = b.mailOf r := by
  unfold deleteEmptyRunEventMailbox
  split
  · rename_i he
    by_cases h : r = q
    · subst h
      have hm : b.mailboxOf r = [] := he.1
      rw [mailboxOf] at hm
      simp [mailOf, mailboxOf, claimsOf, eventWaitsOf, hm]
    · simp [mailOf, mailboxOf, claimsOf, eventWaitsOf, h]
  · rfl

end MemoryBackend

/-! ## The machine -/

inductive MailStep : RunMail → List RunEventEnvelope → List RunEventEnvelope → RunMail → Prop
  | accept {m : RunMail} {event : RunEventEnvelope} :
      m.mailbox.length + m.claims.size < MAX_WORKFLOW_RUN_EVENT_MAILBOX_ENTRIES →
      event.publicationOrder = some m.nextOrder →
      MailStep m [event] [] { m with mailbox := m.mailbox ++ [event], nextOrder := m.nextOrder + 1 }
  | discard {m : RunMail} {event : RunEventEnvelope} {rest : List RunEventEnvelope} :
      m.mailbox.Perm (event :: rest) → rest.Sublist m.mailbox →
      MailStep m [] [event] { m with mailbox := rest }
  | claim {m : RunMail} {now : Timestamp} {wait : PersistedPendingEventWait} {event : RunEventEnvelope}
      {rest : List RunEventEnvelope} :
      m.mailbox.Perm (event :: rest) → rest.Sublist m.mailbox →
      wait ∈ m.waits → wait.status = .pending →
      MailStep m [] []
        { m with
          mailbox := rest
          claims := m.claims.set event.id ⟨MemoryBackend.claimWait now event.id wait, event, now⟩
          waits := modifyFirst (fun w => w.id = wait.id) (MemoryBackend.claimWait now event.id) m.waits }
  | rollBack {m : RunMail} {eventId : String} {claim : RunEventDeliveryClaim} (reopened : Bool) :
      m.claims.get? eventId = some claim →
      MailStep m [] []
        { m with
          mailbox := restoreRetainedRunEvent m.mailbox claim.event
          claims := m.claims.erase eventId
          waits := if reopened then modifyFirst (fun w => w.id = claim.wait.id) MemoryBackend.reopenWait m.waits
            else m.waits }
  | settle {m : RunMail} {eventId : String} {claim : RunEventDeliveryClaim} (delivered : Bool) :
      m.claims.get? eventId = some claim →
      MailStep m [] [claim.event]
        { m with
          claims := m.claims.erase eventId
          waits := modifyFirst (fun w => w.id = claim.wait.id)
            (MemoryBackend.settleClaimedWait delivered eventId) m.waits }
  | reserve {m : RunMail} {eventId : String} {claim : RunEventDeliveryClaim} (at_ : Timestamp) :
      m.claims.get? eventId = some claim →
      MailStep m [] []
        { m with
          claims := m.claims.set eventId
            { claim with wait := { claim.wait with recoveryClaimedAt := some at_ } }
          waits := modifyFirst (fun w => w.id = claim.wait.id)
            (fun w => { w with recoveryClaimedAt := some at_ }) m.waits }
  | resolve {m : RunMail} {wait : PersistedPendingEventWait} (status : EventWaitStatus)
      (claimedAt : PersistedPendingEventWait → Option Timestamp) :
      wait ∈ m.waits → wait.status = .pending →
      MailStep m [] []
        { m with
          waits := modifyFirst (fun w => w.id = wait.id)
            (fun w => { w with status := status, claimedAt := claimedAt w }) m.waits }
  | park {m : RunMail} {wait : PersistedPendingEventWait} {kept : List PersistedPendingEventWait} :
      kept.Sublist m.waits → (∀ w ∈ m.waits, isResolved w = false → w ∈ kept) →
      (∀ w ∈ m.waits, w.id ≠ wait.id) →
      MailStep m [] [] { m with waits := kept ++ [wait] }
  | skip {m : RunMail} {nextOrder : Nat} : m.nextOrder ≤ nextOrder →
      MailStep m [] [] { m with nextOrder := nextOrder }

/-! ## The backend calls as moves -/

namespace MemoryBackend

variable {b : MemoryBackend} {r : String}

theorem get?_evictOrphans (b : MemoryBackend) (r : String) (n : Nat) (ids : List String)
    (events : OrdMap String (List RunEventEnvelope)) :
    (b.evictOrphans n ids events).get? r = none ∨ (b.evictOrphans n ids events).get? r = events.get? r := by
  induction ids generalizing n events with
  | nil => cases n <;> exact .inr rfl
  | cons id ids ih =>
    cases n with
    | zero => exact .inr rfl
    | succ n =>
      rw [evictOrphans]
      split
      · rcases ih n (events.erase id) with h | h
        · exact .inl h
        · rw [h, OrdMap.get?_erase]
          split
          · exact .inl rfl
          · exact .inr rfl
      · exact ih (n + 1) events

theorem size_evictOrphans (b : MemoryBackend) (n : Nat) (ids : List String)
    (events : OrdMap String (List RunEventEnvelope)) : (b.evictOrphans n ids events).size ≤ events.size := by
  induction ids generalizing n events with
  | nil => cases n <;> exact Nat.le_refl _
  | cons id ids ih =>
    cases n with
    | zero => exact Nat.le_refl _
    | succ n =>
      rw [evictOrphans]
      split
      · have he : (events.erase id).size ≤ events.size := by rw [OrdMap.size_erase]; split <;> omega
        exact Nat.le_trans (ih n _) he
      · exact ih (n + 1) events

theorem mailOf_evict {n : Nat} (h : b.runEvents.contains r = false) :
    (b.evictOrphanRunEventMailboxes n).mailOf r = b.mailOf r := by
  have hnone : b.runEvents.get? r = none := by simpa [OrdMap.contains] using h
  unfold evictOrphanRunEventMailboxes
  generalize b.runEvents.size + n - MAX_WORKFLOW_RUN_EVENT_MAILBOXES = overflow
  have hevicted : (b.evictOrphans overflow b.runEvents.keys b.runEvents).get? r = none := by
    rcases get?_evictOrphans b r overflow b.runEvents.keys b.runEvents with h | h
    · exact h
    · exact h.trans hnone
  simp only [mailOf, mailboxOf, hevicted, hnone, claimsOf, eventWaitsOf]

@[simp] theorem mailOf_withRoom : (b.withRoom r).mailOf r = b.mailOf r := by
  unfold withRoom
  split
  · rfl
  · rename_i h
    exact mailOf_evict (by simpa using h)

theorem size_withRoom : (b.withRoom r).runEvents.size ≤ b.runEvents.size := by
  unfold withRoom evictOrphanRunEventMailboxes
  generalize b.runEvents.size + 1 - MAX_WORKFLOW_RUN_EVENT_MAILBOXES = overflow
  split
  · exact Nat.le_refl _
  · exact size_evictOrphans _ _ _ _

theorem appendRunEvent_cases (b : MemoryBackend) (r : String) (event : RunEventEnvelope) :
    ((b.appendRunEvent r event).1 = .ok () ∧
      (b.mailboxOf r).length + (b.claimsOf r).size < MAX_WORKFLOW_RUN_EVENT_MAILBOX_ENTRIES ∧
      (b.appendRunEvent r event).2.mailOf r = { b.mailOf r with
        mailbox := b.mailboxOf r ++ [{ event with publicationOrder := some b.nextRunEventPublicationOrder }]
        nextOrder := b.nextRunEventPublicationOrder + 1 }) ∨
    ((∃ e, (b.appendRunEvent r event).1 = .error e) ∧
      ((b.mailboxOf r).length + (b.claimsOf r).size ≥ MAX_WORKFLOW_RUN_EVENT_MAILBOX_ENTRIES ∨
        b.runEvents.size ≥ MAX_WORKFLOW_RUN_EVENT_MAILBOXES) ∧
      ∃ n ≥ b.nextRunEventPublicationOrder,
        (b.appendRunEvent r event).2.mailOf r = { b.mailOf r with nextOrder := n }) := by
  have hroom := mailOf_withRoom (b := b) (r := r)
  have hm : (b.withRoom r).mailboxOf r = b.mailboxOf r := congrArg RunMail.mailbox hroom
  have hc : (b.withRoom r).claimsOf r = b.claimsOf r := congrArg RunMail.claims hroom
  have hw : (b.withRoom r).eventWaitsOf r = b.eventWaitsOf r := congrArg RunMail.waits hroom
  have hn : (b.withRoom r).nextRunEventPublicationOrder = b.nextRunEventPublicationOrder :=
    congrArg RunMail.nextOrder hroom
  unfold appendRunEvent
  simp only []
  split
  · rename_i hfull
    exact .inr ⟨⟨_, rfl⟩, .inr (Nat.le_trans hfull.2 size_withRoom), _, Nat.le_refl _, hroom⟩
  · let counted : MemoryBackend :=
      { b.withRoom r with nextRunEventPublicationOrder := (b.withRoom r).nextRunEventPublicationOrder + 1 }
    have hcm : counted.mailboxOf r = b.mailboxOf r := hm
    have hcc : counted.claimsOf r = b.claimsOf r := hc
    have hview : counted.mailOf r = { b.mailOf r with nextOrder := b.nextRunEventPublicationOrder + 1 } := by
      simp only [mailOf, ← hm, ← hc, ← hw, ← hn]
      rfl
    rw [show MemoryBackend.mailboxOf _ r = b.mailboxOf r from hcm,
      show MemoryBackend.claimsOf _ r = b.claimsOf r from hcc, appendRetainedRunEvent]
    by_cases hfull : (b.mailboxOf r).length + (b.claimsOf r).size ≥ MAX_WORKFLOW_RUN_EVENT_MAILBOX_ENTRIES
    · rw [if_pos hfull]
      exact .inr ⟨⟨_, rfl⟩, .inl hfull, _, Nat.le_succ _, hview⟩
    · rw [if_neg hfull]
      refine .inl ⟨rfl, by omega, ?_⟩
      rw [mailOf_advance, mailOf_setMailbox, if_pos rfl, show MemoryBackend.mailOf _ r = _ from hview, hn]

theorem findEventWait_some {waitId : String} {wait : PersistedPendingEventWait}
    (h : b.findEventWait r waitId = some wait) : wait ∈ b.eventWaitsOf r ∧ wait.id = waitId :=
  ⟨List.mem_of_find?_eq_some h, by simpa using List.find?_some h⟩

theorem mailOf_change_found (b : MemoryBackend) (r waitId : String)
    (f : PersistedPendingEventWait → PersistedPendingEventWait) :
    (if (b.findEventWait r waitId).isNone then b else b.changeEventWait r waitId f).mailOf r =
      { b.mailOf r with waits := modifyFirst (fun w => w.id = waitId) f (b.mailOf r).waits } := by
  split
  · rename_i hnone
    rw [Option.isNone_iff_eq_none] at hnone
    rw [show modifyFirst _ f (b.mailOf r).waits = (b.mailOf r).waits from modifyFirst_eq_self hnone]
  · rw [mailOf_changeEventWait, if_pos rfl]

end MemoryBackend

inductive MailboxCall
  | appendRunEvent (event : RunEventEnvelope)
  | claimRunEventForWait (now : Timestamp) (waitId eventName : String) (publishedBefore : Option Timestamp)
  | restoreRunEventDelivery (waitId : String) (event : RunEventEnvelope)
  | finalizeRunEventDelivery (eventId : String) (delivered : Bool)
  | takeRunEvent (eventName : String)
  | removeRunEvent (eventId : String)
  | reserveRunEventDeliveryClaim (waitId eventId : String) (claimedAt staleBefore : Timestamp)
  | resolvePendingEventWait (now : Timestamp) (waitId : String) (status : EventWaitStatus)
      (unlessBuffered : Option (String × Timestamp))
  | savePendingEventWait (wait : PersistedPendingEventWait)
  | savePendingEventWaitIfStatusAndWorker (expectedStatuses : List WorkflowStatus) (expectedWorkerId : String)
      (wait : PersistedPendingEventWait)

namespace MailboxCall

def after (r : String) (b : MemoryBackend) : MailboxCall → MemoryBackend
  | appendRunEvent event => (b.appendRunEvent r event).2
  | claimRunEventForWait now waitId eventName before => (b.claimRunEventForWait now r waitId eventName before).2
  | restoreRunEventDelivery waitId event => (b.restoreRunEventDelivery r waitId event).2
  | finalizeRunEventDelivery eventId delivered => (b.finalizeRunEventDelivery r eventId delivered).2
  | takeRunEvent eventName => (b.takeRunEvent r eventName).2
  | removeRunEvent eventId => (b.removeRunEvent r eventId).2
  | reserveRunEventDeliveryClaim waitId eventId claimedAt staleBefore =>
    (b.reserveRunEventDeliveryClaim r waitId eventId claimedAt staleBefore).2
  | resolvePendingEventWait now waitId status unlessBuffered =>
    (b.resolvePendingEventWait now r waitId status unlessBuffered).2
  | savePendingEventWait wait => (b.savePendingEventWait r wait).2
  | savePendingEventWaitIfStatusAndWorker statuses worker wait =>
    (b.savePendingEventWaitIfStatusAndWorker r statuses worker wait).2

/-- The envelope that a successful append buffers, with its sequence number. -/
def accepted (r : String) (b : MemoryBackend) : MailboxCall → List RunEventEnvelope
  | appendRunEvent event =>
    match (b.appendRunEvent r event).1 with
    | .ok () => [{ event with publicationOrder := some b.nextRunEventPublicationOrder }]
    | .error _ => []
  | _ => []

def consumed (r : String) (b : MemoryBackend) : MailboxCall → List RunEventEnvelope
  | finalizeRunEventDelivery eventId _ => (((b.claimsOf r).get? eventId).map RunEventDeliveryClaim.event).toList
  | takeRunEvent eventName =>
    match (b.takeRunEvent r eventName).1 with
    | .ok taken => taken.toList
    | .error _ => []
  | removeRunEvent eventId => ((b.mailboxOf r).find? fun e => e.id = eventId).toList
  | _ => []

variable {b : MemoryBackend} {r : String}

theorem stay_move : MailStep (b.mailOf r) [] [] (b.mailOf r) :=
  .skip (Nat.le_refl (b.mailOf r).nextOrder)

theorem appendRunEvent_move (event : RunEventEnvelope) :
    MailStep (b.mailOf r) ((appendRunEvent event).accepted r b) []
      ((b.appendRunEvent r event).2.mailOf r) := by
  rcases b.appendRunEvent_cases r event with ⟨hok, hroom, hafter⟩ | ⟨⟨e, herr⟩, -, n, hn, hafter⟩
  · rw [accepted, hok, hafter]
    exact .accept hroom rfl
  · rw [accepted, herr, hafter]
    exact .skip hn

theorem claimRunEventForWait_move (now : Timestamp) (waitId eventName : String) (before : Option Timestamp) :
    MailStep (b.mailOf r) [] [] ((b.claimRunEventForWait now r waitId eventName before).2.mailOf r) := by
  unfold MemoryBackend.claimRunEventForWait
  split
  · exact stay_move
  · rename_i wait hwait
    obtain ⟨hmem, hid⟩ := MemoryBackend.findEventWait_some hwait
    split
    · exact stay_move
    · rename_i hpending
      split
      · exact stay_move
      · rename_i event rest htake
        obtain ⟨hperm, hsub, -⟩ := takeRetainedRunEvent_some htake
        have h := @MailStep.claim (b.mailOf r) now _ _ _ hperm hsub hmem (by simpa using hpending)
        subst hid
        simp only [MemoryBackend.mailOf_advance, MemoryBackend.mailOf_setClaims, if_true,
          MemoryBackend.mailOf_changeEventWait, MemoryBackend.mailOf_setMailbox]
        exact h

theorem restoreRunEventDelivery_move (waitId : String) (event : RunEventEnvelope) :
    MailStep (b.mailOf r) [] [] ((b.restoreRunEventDelivery r waitId event).2.mailOf r) := by
  unfold MemoryBackend.restoreRunEventDelivery
  split
  · exact stay_move
  · rename_i claim hclaim
    split
    · exact stay_move
    · rename_i hid
      have hid : claim.wait.id = waitId := by simpa using hid
      subst hid
      have h := MailStep.rollBack (m := b.mailOf r)
        ((b.findEventWait r claim.wait.id).any fun w => MemoryBackend.isClaimedStatus w.status) hclaim
      simp only [MemoryBackend.mailOf_advance, MemoryBackend.mailOf_releaseRunEventClaim, if_true,
        MemoryBackend.mailOf_setMailbox]
      split
      · rename_i hreopened
        simp only [hreopened, if_true] at h
        rw [MemoryBackend.mailOf_changeEventWait, if_pos rfl]
        exact h
      · rename_i hreopened
        simp only [hreopened, Bool.false_eq_true, if_false] at h
        exact h

theorem finalizeRunEventDelivery_move (eventId : String) (delivered : Bool) :
    MailStep (b.mailOf r) [] ((finalizeRunEventDelivery eventId delivered).consumed r b)
      ((b.finalizeRunEventDelivery r eventId delivered).2.mailOf r) := by
  have hdrop : ∀ b' : MemoryBackend, (if b'.runEvents.contains r then b'.deleteEmptyRunEventMailbox r
      else b').mailOf r = b'.mailOf r := by
    intro b'
    split
    · exact MemoryBackend.mailOf_deleteEmptyRunEventMailbox b' r r
    · rfl
  unfold MemoryBackend.finalizeRunEventDelivery
  simp only [hdrop, MemoryBackend.mailOf_releaseRunEventClaim, if_true, consumed]
  cases hclaim : (b.claimsOf r).get? eventId with
  | none =>
    have h : (b.mailOf r).claims.erase eventId = (b.mailOf r).claims := OrdMap.erase_of_get?_none hclaim
    simp only [h]
    exact stay_move
  | some claim =>
    have h := MailStep.settle (m := b.mailOf r) delivered hclaim
    simpa only [MemoryBackend.mailOf_advance, MemoryBackend.mailOf_change_found, Option.map_some,
      Option.toList_some] using h

theorem takeRunEvent_move (eventName : String) :
    MailStep (b.mailOf r) [] ((takeRunEvent eventName).consumed r b) ((b.takeRunEvent r eventName).2.mailOf r) := by
  simp only [consumed, MemoryBackend.takeRunEvent]
  cases hc : b.runEvents.contains r with
  | false => exact stay_move
  | true =>
    cases htake : takeRetainedRunEvent (b.mailboxOf r) eventName none with
    | none => simpa using stay_move
    | some taken =>
      obtain ⟨hperm, hsub, -⟩ := takeRetainedRunEvent_some htake
      have h := MailStep.discard (m := b.mailOf r) hperm hsub
      simpa using h

theorem removeRunEvent_move (eventId : String) :
    MailStep (b.mailOf r) [] ((removeRunEvent eventId).consumed r b) ((b.removeRunEvent r eventId).2.mailOf r) := by
  simp only [consumed, MemoryBackend.removeRunEvent]
  cases hfind : (b.mailboxOf r).find? fun e => e.id = eventId with
  | none =>
    have hany : ((b.mailboxOf r).any fun e => e.id = eventId) = false := by
      simpa using hfind
    simp only [hany, Bool.false_eq_true, if_false, Option.toList_none]
    exact stay_move
  | some event =>
    have hid : event.id = eventId := by simpa using List.find?_some hfind
    have hany : ((b.mailboxOf r).any fun e => e.id = eventId) = true :=
      List.any_eq_true.mpr ⟨event, List.mem_of_find?_eq_some hfind, decide_eq_true hid⟩
    have h := MailStep.discard (m := b.mailOf r) (perm_cons_eraseP hfind) List.eraseP_sublist
    simp only [hany, if_true, MemoryBackend.mailOf_advance, MemoryBackend.mailOf_deleteEmptyRunEventMailbox,
      MemoryBackend.mailOf_setMailbox, Option.toList_some]
    exact h

theorem reserveRunEventDeliveryClaim_move (waitId eventId : String) (claimedAt staleBefore : Timestamp) :
    MailStep (b.mailOf r) [] []
      ((b.reserveRunEventDeliveryClaim r waitId eventId claimedAt staleBefore).2.mailOf r) := by
  unfold MemoryBackend.reserveRunEventDeliveryClaim
  split
  · exact stay_move
  · rename_i claim hclaim
    split
    · exact stay_move
    · rename_i hid
      have hid : claim.wait.id = waitId := by
        by_contra hne
        exact hid (.inl hne)
      subst hid
      have h := MailStep.reserve (m := b.mailOf r) claimedAt hclaim
      simp only [MemoryBackend.mailOf_advance, MemoryBackend.mailOf_change_found,
        MemoryBackend.mailOf_setClaims, if_true]
      exact h

theorem resolvePendingEventWait_move (now : Timestamp) (waitId : String) (status : EventWaitStatus)
    (unlessBuffered : Option (String × Timestamp)) :
    MailStep (b.mailOf r) [] []
      ((b.resolvePendingEventWait now r waitId status unlessBuffered).2.mailOf r) := by
  unfold MemoryBackend.resolvePendingEventWait
  split
  · exact stay_move
  · rename_i wait hwait
    obtain ⟨hmem, hid⟩ := MemoryBackend.findEventWait_some hwait
    split
    · exact stay_move
    · rename_i hpending
      split
      · exact stay_move
      · subst hid
        have h := MailStep.resolve (m := b.mailOf r) status
          (fun w => if status = .delivered ∨ status = .expired then some now else w.claimedAt)
          hmem (by simpa using hpending)
        simpa only [MemoryBackend.mailOf_advance, MemoryBackend.mailOf_changeEventWait, if_true] using h

theorem appendEventWait_move {wait : PersistedPendingEventWait}
    (hnew : ∀ w ∈ b.eventWaitsOf r, w.id ≠ wait.id) :
    MailStep (b.mailOf r) [] [] ((b.appendEventWait r wait).2.mailOf r) := by
  unfold MemoryBackend.appendEventWait
  split
  · exact stay_move
  · split
    · exact stay_move
    · rename_i waits happend
      obtain ⟨kept, hsub, hkept, rfl⟩ := appendRetained_ok happend
      have h := @MailStep.park (b.mailOf r) wait kept hsub hkept hnew
      simpa only [MemoryBackend.mailOf_advance, MemoryBackend.mailOf_setEventWaits, if_true] using h

def NewWait (r : String) (b : MemoryBackend) : MailboxCall → Prop
  | savePendingEventWait wait => ∀ w ∈ b.eventWaitsOf r, w.id ≠ wait.id
  | savePendingEventWaitIfStatusAndWorker _ _ wait => ∀ w ∈ b.eventWaitsOf r, w.id ≠ wait.id
  | _ => True

theorem move {call : MailboxCall} (hnew : call.NewWait r b) :
    MailStep (b.mailOf r) (call.accepted r b) (call.consumed r b) ((call.after r b).mailOf r) := by
  cases call with
  | appendRunEvent event => exact appendRunEvent_move event
  | claimRunEventForWait now waitId eventName before => exact claimRunEventForWait_move ..
  | restoreRunEventDelivery waitId event => exact restoreRunEventDelivery_move ..
  | finalizeRunEventDelivery eventId delivered => exact finalizeRunEventDelivery_move ..
  | takeRunEvent eventName => exact takeRunEvent_move ..
  | removeRunEvent eventId => exact removeRunEvent_move ..
  | reserveRunEventDeliveryClaim => exact reserveRunEventDeliveryClaim_move ..
  | resolvePendingEventWait => exact resolvePendingEventWait_move ..
  | savePendingEventWait wait => exact appendEventWait_move hnew
  | savePendingEventWaitIfStatusAndWorker statuses worker wait =>
    simp only [accepted, consumed, after, MemoryBackend.savePendingEventWaitIfStatusAndWorker]
    split
    · exact stay_move
    · split
      · exact appendEventWait_move hnew
      · exact stay_move

end MailboxCall

end Veryfront.Workflow
