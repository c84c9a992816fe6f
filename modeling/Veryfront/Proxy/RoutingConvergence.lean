import Mathlib.Data.List.Nodup
import Mathlib.Data.List.Perm.Subperm
import Veryfront.Proxy.RoutingInvalidationRedis

/-!
# What convergence says

Every acknowledgement comes from a replica that has handled the event, but the one that counts them knows only how many there
should be.
-/

namespace Veryfront.Proxy.RoutingInvalidation

open Lib Function

/-! ## Handling events -/

def ProcessingStage.Active : ProcessingStage → Prop
  | .settled _ => False
  | _ => True

/-- The handler has ended without an error. -/
def ProcessingStage.Done (stage : ProcessingStage) : Prop := stage = .handled true ∨ stage = .settled true

namespace Handlers

def Completed (handlers : Handlers) (eventId : Text) : Prop :=
  ∃ processing stage, handlers.processings processing = some ⟨eventId, stage⟩ ∧ stage.Done

def Justified (handlers : Handlers) (eventId : Text) : HandlingStage → Prop
  | .awaiting processing => ∃ stage, handlers.processings processing = some ⟨eventId, stage⟩
  | .processed | .signing | .publishing | .acknowledged => handlers.Completed eventId
  | .verifying | .dropped => True

structure Inv (handlers : Handlers) : Prop where
  fresh : ∀ processing, handlers.allocated ≤ processing → handlers.processings processing = none
  active : ∀ eventId processing, handlers.eventProcessing.get? eventId = some processing ↔
    ∃ stage, handlers.processings processing = some ⟨eventId, stage⟩ ∧ stage.Active
  processed : ∀ eventId ∈ handlers.processedEventIds, handlers.Completed eventId
  justified : ∀ id handling, handlers.handlings id = some handling → handlers.Justified handling.event.eventId handling.stage

theorem inv_empty : Inv empty where
  fresh _ _ := rfl
  active _ _ := by simp [empty]
  processed _ := nofun
  justified _ _ := nofun

variable {handlers handlers' : Handlers} {handling processing : Nat} {event : ProxyRoutingInvalidationEvent} {eventId : Text}

theorem Inv.exclusive (h : handlers.Inv) {processing' : Nat}
    (hrunning : handlers.processings processing = some ⟨eventId, .running⟩)
    (hrunning' : handlers.processings processing' = some ⟨eventId, .running⟩) : processing = processing' := by
  have hactive := (h.active eventId processing).mpr ⟨_, hrunning, trivial⟩
  have hactive' := (h.active eventId processing').mpr ⟨_, hrunning', trivial⟩
  exact Option.some.inj (hactive.symm.trans hactive')

def Keeps (handlers handlers' : Handlers) : Prop :=
  handlers'.Inv ∧ ∀ eventId, handlers.Completed eventId → handlers'.Completed eventId

theorem Completed.mono
    (hprocessings : ∀ processing stage, handlers.processings processing = some ⟨eventId, stage⟩ →
      ∃ stage', handlers'.processings processing = some ⟨eventId, stage'⟩ ∧ (stage.Done → stage'.Done))
    (h : handlers.Completed eventId) : handlers'.Completed eventId := by
  obtain ⟨processing, stage, hprocessing, hdone⟩ := h
  obtain ⟨stage', hprocessing', hdone'⟩ := hprocessings processing stage hprocessing
  exact ⟨processing, stage', hprocessing', hdone' hdone⟩

variable {stage : HandlingStage}

theorem Justified.mono
    (hprocessings : ∀ processing stage, handlers.processings processing = some ⟨eventId, stage⟩ →
      ∃ stage', handlers'.processings processing = some ⟨eventId, stage'⟩ ∧ (stage.Done → stage'.Done))
    (h : handlers.Justified eventId stage) : handlers'.Justified eventId stage := by
  cases stage with
  | awaiting processing =>
    obtain ⟨stage, hprocessing⟩ := h
    obtain ⟨stage', hprocessing', -⟩ := hprocessings processing stage hprocessing
    exact ⟨stage', hprocessing'⟩
  | verifying | dropped => trivial
  | processed | signing | publishing | acknowledged => exact Completed.mono hprocessings h

theorem Inv.move (h : handlers.Inv) (hstage : handlers.Justified event.eventId stage) :
    (handlers.move handling event stage).Inv := by
  refine ⟨h.fresh, h.active, h.processed, fun id found hfound => ?_⟩
  dsimp only [Handlers.move] at hfound
  by_cases hid : id = handling
  · rw [hid, update_self] at hfound
    obtain rfl := Option.some.inj hfound
    exact hstage
  · rw [update_of_ne hid] at hfound
    exact h.justified id found hfound

theorem Keeps.move (h : handlers.Inv) (hstage : handlers.Justified event.eventId stage) :
    handlers.Keeps (handlers.move handling event stage) :=
  ⟨h.move hstage, fun _ => id⟩

theorem Keeps.receive (h : handlers.Inv) (event : ProxyRoutingInvalidationEvent) : handlers.Keeps (handlers.receive event) := by
  have hmove : (handlers.move handlers.allocated event .verifying).Inv := h.move trivial
  exact ⟨⟨fun processing hle => h.fresh processing (Nat.le_of_succ_le hle), hmove.active, hmove.processed, hmove.justified⟩,
    fun _ => id⟩

theorem Keeps.processEvent (h : handlers.Inv) : handlers.Keeps (handlers.processEvent handling event) := by
  rw [Handlers.processEvent]
  split
  · rename_i hmem
    exact .move h (h.processed _ hmem)
  split
  · rename_i existing hexisting
    obtain ⟨stage, hprocessing, -⟩ := (h.active _ _).mp hexisting
    exact .move h ⟨stage, hprocessing⟩
  · rename_i hnone
    have hnew := h.fresh handlers.allocated (Nat.le_refl _)
    have hold {processing : Nat} {found : Processing} (hfound : handlers.processings processing = some found) :
        update handlers.processings handlers.allocated (some ⟨event.eventId, .scheduled⟩) processing = some found := by
      rw [update_of_ne (fun heq => by rw [heq, hnew] at hfound; cases hfound), hfound]
    have hcompleted {eventId : Text} : handlers.Completed eventId → Completed
        { handlers.move handling event (.awaiting handlers.allocated) with
          processings := update handlers.processings handlers.allocated (some ⟨event.eventId, .scheduled⟩)
          eventProcessing := handlers.eventProcessing.set event.eventId handlers.allocated
          allocated := handlers.allocated + 1 } eventId := by
      rintro ⟨processing, stage, hprocessing, hdone⟩
      exact ⟨processing, stage, hold hprocessing, hdone⟩
    refine ⟨⟨fun processing hle => ?_, fun eventId processing => ?_, fun eventId hmem => hcompleted (h.processed eventId hmem),
      fun id found hfound => ?_⟩, fun _ => hcompleted⟩
    · dsimp only at hle ⊢
      rw [update_of_ne (by omega)]
      exact h.fresh processing (Nat.le_of_succ_le hle)
    · dsimp only
      rw [OrdMap.get?_set]
      by_cases hevent : eventId = event.eventId
      · subst hevent
        rw [if_pos rfl, Option.some_inj]
        constructor
        · rintro rfl
          exact ⟨.scheduled, update_self _ _ _, trivial⟩
        · rintro ⟨stage, hprocessing, hactive⟩
          by_contra hne
          rw [update_of_ne (Ne.symm hne)] at hprocessing
          have := (h.active event.eventId processing).mpr ⟨stage, hprocessing, hactive⟩
          rw [hnone] at this
          cases this
      · rw [if_neg hevent, h.active]
        constructor
        · rintro ⟨stage, hprocessing, hactive⟩
          exact ⟨stage, hold hprocessing, hactive⟩
        · rintro ⟨stage, hprocessing, hactive⟩
          refine ⟨stage, ?_, hactive⟩
          rw [update_of_ne] at hprocessing
          · exact hprocessing
          · rintro rfl
            rw [update_self] at hprocessing
            exact hevent (congrArg Processing.eventId (Option.some.inj hprocessing)).symm
    · dsimp only [Handlers.move] at hfound
      by_cases hid : id = handling
      · rw [hid, update_self] at hfound
        obtain rfl := Option.some.inj hfound
        exact ⟨.scheduled, update_self _ _ _⟩
      · rw [update_of_ne hid] at hfound
        exact (h.justified id found hfound).mono fun processing stage hprocessing => ⟨stage, hold hprocessing, fun hdone => hdone⟩

theorem Keeps.verified (h : handlers.Inv) {closed valid : Bool} (hstep : handlers.verified closed handling valid = some handlers') :
    handlers.Keeps handlers' := by
  rw [Handlers.verified] at hstep
  split at hstep
  · split at hstep
    · cases hstep
      exact .move h trivial
    · cases hstep
      exact .processEvent h
  · cases hstep

theorem setStage_kept {stage stage' : ProcessingStage} (hfound : handlers.processings processing = some ⟨eventId, stage⟩)
    (hdone : stage.Done → stage'.Done) (eventId' : Text) (processing' : Nat) (found : ProcessingStage)
    (hfound' : handlers.processings processing' = some ⟨eventId', found⟩) :
    ∃ found', update handlers.processings processing (some ⟨eventId, stage'⟩) processing' = some ⟨eventId', found'⟩ ∧
      (found.Done → found'.Done) := by
  by_cases heq : processing' = processing
  · subst heq
    cases hfound.symm.trans hfound'
    exact ⟨stage', update_self _ _ _, hdone⟩
  · exact ⟨found, by rw [update_of_ne heq, hfound'], fun hdone => hdone⟩

theorem setStage_fresh (h : handlers.Inv) {stage : ProcessingStage}
    (hfound : handlers.processings processing = some ⟨eventId, stage⟩) (found : Option Processing) {processing' : Nat}
    (hle : handlers.allocated ≤ processing') : update handlers.processings processing found processing' = none := by
  rw [update_of_ne]
  · exact h.fresh processing' hle
  · rintro rfl
    rw [h.fresh processing' hle] at hfound
    cases hfound

theorem Keeps.setStage (h : handlers.Inv) {stage stage' : ProcessingStage}
    (hfound : handlers.processings processing = some ⟨eventId, stage⟩) (hactive : stage.Active ↔ stage'.Active)
    (hdone : stage.Done → stage'.Done) : handlers.Keeps (handlers.setStage processing eventId stage') := by
  have hkept := setStage_kept hfound hdone
  refine ⟨⟨fun processing' hle => setStage_fresh h hfound _ hle, fun eventId' processing' => ?_,
    fun eventId' hmem => (h.processed eventId' hmem).mono (hkept _),
    fun id found hfound' => (h.justified id found hfound').mono (hkept _)⟩, fun _ hcompleted => hcompleted.mono (hkept _)⟩
  dsimp only [Handlers.setStage]
  rw [h.active]
  by_cases heq : processing' = processing
  · subst heq
    rw [update_self, hfound]
    constructor
    · rintro ⟨found, hsame, hactive'⟩
      cases hsame
      exact ⟨stage', rfl, hactive.mp hactive'⟩
    · rintro ⟨found, hsame, hactive'⟩
      cases hsame
      exact ⟨stage, rfl, hactive.mpr hactive'⟩
  · rw [update_of_ne heq]

theorem mem_trimRecent {eventIds : List Text} (h : eventId ∈ trimRecent eventIds) : eventId ∈ eventIds := by
  induction eventIds with
  | nil => exact h
  | cons oldest rest ih =>
    rw [trimRecent] at h
    split at h
    · exact List.mem_cons_of_mem _ (ih h)
    · exact h

theorem mem_rememberProcessedEvent {processedEventIds : List Text} {eventId' : Text}
    (h : eventId ∈ rememberProcessedEvent processedEventIds eventId') : eventId ∈ processedEventIds ∨ eventId = eventId' := by
  rcases List.mem_append.mp (mem_trimRecent h) with hmem | hmem
  · exact .inl (List.mem_of_mem_erase hmem)
  · exact .inr (List.mem_singleton.mp hmem)

theorem Keeps.startHandler (h : handlers.Inv) (hstep : handlers.startHandler processing = some handlers') :
    handlers.Keeps handlers' := by
  rw [Handlers.startHandler] at hstep
  split at hstep
  · rename_i hfound
    cases hstep
    exact .setStage h hfound Iff.rfl nofun
  · cases hstep

theorem Keeps.finishHandler (h : handlers.Inv) {ok : Bool} (hstep : handlers.finishHandler processing ok = some handlers') :
    handlers.Keeps handlers' := by
  rw [Handlers.finishHandler] at hstep
  split at hstep
  · rename_i hfound
    cases hstep
    exact .setStage h hfound Iff.rfl nofun
  · cases hstep

theorem Keeps.settleProcessing (h : handlers.Inv) (hstep : handlers.settleProcessing processing = some handlers') :
    handlers.Keeps handlers' := by
  rw [Handlers.settleProcessing] at hstep
  split at hstep
  · rename_i eventId ok hfound
    cases hstep
    have hdone : (ProcessingStage.handled ok).Done → (ProcessingStage.settled ok).Done := by
      rintro (heq | heq)
      · cases heq
        exact .inr rfl
      · cases heq
    have hkept := setStage_kept hfound hdone
    refine ⟨⟨fun processing' hle => setStage_fresh h hfound _ hle, fun eventId' processing' => ?_, fun eventId' hmem => ?_,
      fun id found hfound' => (h.justified id found hfound').mono (hkept _)⟩, fun _ hcompleted => hcompleted.mono (hkept _)⟩
    · dsimp only [Handlers.setStage]
      rw [OrdMap.get?_erase]
      by_cases hevent : eventId' = eventId
      · -- the only active processing of the event has settled
        subst hevent
        rw [if_pos rfl]
        refine iff_of_false nofun ?_
        rintro ⟨found, hfound', hactive⟩
        by_cases heq : processing' = processing
        · subst heq
          rw [update_self] at hfound'
          cases hfound'
          exact hactive
        · rw [update_of_ne heq] at hfound'
          have hget := (h.active eventId' processing).mpr ⟨_, hfound, trivial⟩
          have hget' := (h.active eventId' processing').mpr ⟨found, hfound', hactive⟩
          exact heq (Option.some.inj (hget'.symm.trans hget))
      · rw [if_neg hevent, h.active]
        by_cases heq : processing' = processing
        · subst heq
          rw [update_self, hfound]
          constructor
          · rintro ⟨found, hsame, -⟩
            cases hsame
            exact absurd rfl hevent
          · rintro ⟨found, hsame, -⟩
            cases hsame
            exact absurd rfl hevent
        · rw [update_of_ne heq]
    · cases ok with
      | false => exact (h.processed eventId' hmem).mono (hkept _)
      | true =>
        rcases mem_rememberProcessedEvent hmem with hmem | rfl
        · exact (h.processed eventId' hmem).mono (hkept _)
        · exact ⟨processing, .settled true, update_self _ _ _, .inr rfl⟩
  · cases hstep

theorem Keeps.resume (h : handlers.Inv) {closed : Bool} (hstep : handlers.resume closed handling = some handlers') :
    handlers.Keeps handlers' := by
  have hmove {event : ProxyRoutingInvalidationEvent} (hcompleted : handlers.Completed event.eventId) :
      handlers.Keeps (handlers.move handling event (if closed then .dropped else .signing)) := by
    refine .move h ?_
    split
    · trivial
    · exact hcompleted
  rw [Handlers.resume] at hstep
  split at hstep
  · rename_i event hfound
    cases hstep
    exact hmove (h.justified _ _ hfound)
  · rename_i event processing hfound
    obtain ⟨stage, hprocessing⟩ := h.justified _ _ hfound
    split at hstep
    · rename_i eventId hsettled
      cases hstep
      cases hprocessing.symm.trans hsettled
      exact hmove ⟨processing, .settled true, hprocessing, .inr rfl⟩
    · cases hstep
      exact .move h trivial
    · cases hstep
  · cases hstep

theorem Keeps.signed (h : handlers.Inv) {ok : Bool} (hstep : handlers.signed handling ok = some handlers') :
    handlers.Keeps handlers' := by
  rw [Handlers.signed] at hstep
  split at hstep
  · rename_i event hfound
    cases hstep
    refine .move h ?_
    split
    · exact h.justified _ _ hfound
    · trivial
  · cases hstep

theorem Keeps.acknowledge (h : handlers.Inv) (hstep : handlers.acknowledge handling = some (eventId, handlers')) :
    handlers.Keeps handlers' ∧ handlers.Completed eventId := by
  rw [Handlers.acknowledge] at hstep
  split at hstep
  · rename_i event hfound
    cases hstep
    exact ⟨.move h (h.justified _ _ hfound), h.justified _ _ hfound⟩
  · cases hstep

end Handlers

/-! ## Publishing events -/

/-- A stage that says nothing yet. -/
def PublishStage.Plain : PublishStage → Prop
  | .published _ | .waiting => False
  | .unsubscribing (some result) | .settled (some result) => result.converged = false
  | _ => True

namespace System

def Completed (system : System) (replicaId eventId : Text) : Prop := (system.handlers replicaId).Completed eventId

structure Inv (system : System) : Prop where
  handlers : ∀ replicaId, (system.handlers replicaId).Inv
  acks : ∀ message ∈ system.acks, system.Completed message.payload.replicaId message.payload.eventId
  verifying : ∀ entry ∈ system.verifying, system.Completed entry.2.replicaId entry.2.eventId
  counted : ∀ publish entry, system.publishes publish = some entry →
    entry.acknowledgedReplicas.Nodup ∧ ∀ replicaId ∈ entry.acknowledgedReplicas, system.Completed replicaId entry.event.eventId
  replicas : system.replicas.Nodup

def Says (system : System) (entry : Publish) (result : ProxyRoutingInvalidationPublishResult) : Prop :=
  result.converged → ∃ subscribers, entry.subscribers = some subscribers ∧
    ∀ replicaId ∈ subscribers, system.Completed replicaId entry.event.eventId

structure Truthful (system : System) (entry : Publish) : Prop where
  among : ∀ subscribers, entry.subscribers = some subscribers →
    subscribers.Nodup ∧ ∀ replicaId ∈ entry.acknowledgedReplicas, replicaId ∈ subscribers
  published : ∀ recipients, entry.stage = .published recipients →
    ∃ subscribers, entry.subscribers = some subscribers ∧ recipients = subscribers.length
  waiting : entry.stage = .waiting → ∃ subscribers, entry.subscribers = some subscribers ∧ entry.recipients = subscribers.length
  result : ∀ result, entry.stage = .unsubscribing (some result) ∨ entry.stage = .settled (some result) → system.Says entry result

/-! ### What a step does to a publish -/

variable {system system' : System} {publish : Nat} {entry entry' : Publish} {bus : Bus}

inductive Change : Option Publish → Publish → Prop
  | started {entry : Option Publish} {entry' : Publish} (counted : entry'.acknowledgedReplicas = [])
      (subscribers : entry'.subscribers = none) (stage : entry'.stage.Plain) : Change entry entry'
  | moved {entry : Publish} {stage : PublishStage} (plain : stage.Plain) : Change (some entry) { entry with stage := stage }
  | received {entry : Publish} {recipients : Nat} {acknowledgementReceived : Bool} (stage : entry.stage = .published recipients) :
      Change (some entry)
        { entry with recipients := recipients, acknowledgementReceived := acknowledgementReceived, stage := .waiting }
  | ended {entry : Publish} {bus : Bus} {recipients : Nat} {acknowledgementReceived : Bool} {stage : PublishStage}
      (before : entry.stage = .published recipients ∨ (entry.stage = .waiting ∧ entry.recipients = recipients))
      (after : ∃ result, (stage = .unsubscribing (some result) ∨ stage = .settled (some result)) ∧
        result = resultOf { entry with recipients := recipients } bus) :
      Change (some entry)
        { entry with recipients := recipients, acknowledgementReceived := acknowledgementReceived, stage := stage }
  | unsubscribed {entry : Publish} {result : Option ProxyRoutingInvalidationPublishResult}
      (before : entry.stage = .unsubscribing result) : Change (some entry) { entry with stage := .settled result }

structure PublishStep (system system' : System) : Prop where
  handlers : system'.handlers = system.handlers
  acks : system'.acks = system.acks
  verifying : system'.verifying = system.verifying
  replicas : system'.replicas = system.replicas
  publishes : ∃ publish entry', system'.publishes = update system.publishes publish (some entry') ∧
    Change (system.publishes publish) entry'

theorem unsubscribeAcknowledgement_spec (system : System) (publish : Nat) (entry : Publish) (bus : Bus)
    (result : Option ProxyRoutingInvalidationPublishResult) :
    ∃ stage, (stage = .unsubscribing result ∨ stage = .settled result) ∧
      (system.unsubscribeAcknowledgement publish entry bus result).handlers = system.handlers ∧
      (system.unsubscribeAcknowledgement publish entry bus result).acks = system.acks ∧
      (system.unsubscribeAcknowledgement publish entry bus result).verifying = system.verifying ∧
      (system.unsubscribeAcknowledgement publish entry bus result).replicas = system.replicas ∧
      (system.unsubscribeAcknowledgement publish entry bus result).publishes =
        update system.publishes publish (some { entry with stage := stage }) := by
  simp only [unsubscribeAcknowledgement]
  split
  · exact ⟨.settled result, .inr rfl, rfl, rfl, rfl, rfl, rfl⟩
  · split
    · exact ⟨.settled result, .inr rfl, rfl, rfl, rfl, rfl, rfl⟩
    · refine ⟨if bus.closed then .settled result else .unsubscribing result, ?_, rfl, rfl, rfl, rfl, rfl⟩
      split
      · exact .inr rfl
      · exact .inl rfl

variable {system : System}

theorem PublishStep.setPublish (h : system.publishes publish = some entry) (hchange : Change (some entry) entry') :
    PublishStep system (system.setPublish publish entry') :=
  ⟨rfl, rfl, rfl, rfl, publish, entry', rfl, h ▸ hchange⟩

theorem PublishStep.setBus (h : system.publishes publish = some entry) (replicaId : Text) (bus : Bus)
    (hchange : Change (some entry) entry') : PublishStep system ((system.setBus replicaId bus).setPublish publish entry') :=
  ⟨rfl, rfl, rfl, rfl, publish, entry', rfl, h ▸ hchange⟩

theorem PublishStep.leave (h : system.publishes publish = some entry) (bus : Bus)
    {result : Option ProxyRoutingInvalidationPublishResult}
    (hchange : ∀ stage, (stage = .unsubscribing result ∨ stage = .settled result) →
      Change (some entry) { entry' with stage := stage }) :
    PublishStep system (system.unsubscribeAcknowledgement publish entry' bus result) := by
  obtain ⟨stage, hstage, hhandlers, hacks, hverifying, hreplicas, hpublishes⟩ :=
    unsubscribeAcknowledgement_spec system publish entry' bus result
  exact ⟨hhandlers, hacks, hverifying, hreplicas, publish, _, hpublishes, h ▸ hchange stage hstage⟩

theorem PublishStep.fail (h : system.publishes publish = some entry) (bus : Bus) :
    PublishStep system (system.unsubscribeAcknowledgement publish entry bus
      (if bus.closed then some ⟨entry.acknowledgedReplicas.length, false, entry.recipients⟩ else none)) := by
  refine .leave h bus fun stage hstage => .moved ?_
  split at hstage
  · rcases hstage with rfl | rfl <;> exact rfl
  · rcases hstage with rfl | rfl <;> exact trivial

variable {replicaId : Text}

theorem publishStep_publish {event : ProxyRoutingInvalidationEvent}
    (h : system.publish replicaId event = some system') : PublishStep system system' := by
  obtain ⟨bus, -, h⟩ := Option.bind_eq_some_iff.mp h
  split at h
  · cases h
  dsimp only at h
  split at h
  · cases h
    exact ⟨rfl, rfl, rfl, rfl, _, _, rfl, .started rfl rfl trivial⟩
  · cases h
    exact ⟨rfl, rfl, rfl, rfl, _, _, rfl, .started rfl rfl trivial⟩

theorem publishStep_subscribed {ok : Bool} (h : system.subscribed publish ok = some system') : PublishStep system system' := by
  obtain ⟨entry, hentry, h⟩ := Option.bind_eq_some_iff.mp h
  obtain ⟨bus, -, h⟩ := Option.bind_eq_some_iff.mp h
  dsimp only at h
  split at h
  · split at h
    · cases h
      exact .setBus hentry _ _ (.moved trivial)
    · cases h
      exact .setBus hentry _ _ (.moved trivial)
  · cases h

theorem publishStep_resumeSubscribed (h : system.resumeSubscribed publish = some system') : PublishStep system system' := by
  obtain ⟨entry, hentry, h⟩ := Option.bind_eq_some_iff.mp h
  obtain ⟨bus, -, h⟩ := Option.bind_eq_some_iff.mp h
  dsimp only at h
  split at h
  · split at h
    · cases h
      exact .setBus hentry _ _ (.moved trivial)
    · cases h
      exact ⟨rfl, rfl, rfl, rfl, publish, _, rfl, hentry ▸ .moved trivial⟩
  · cases h

theorem publishStep_signedEvent {ok : Bool} (h : system.signedEvent publish ok = some system') : PublishStep system system' := by
  obtain ⟨entry, hentry, h⟩ := Option.bind_eq_some_iff.mp h
  obtain ⟨bus, -, h⟩ := Option.bind_eq_some_iff.mp h
  split at h
  · split at h
    · cases h
      exact .setPublish hentry (.moved trivial)
    · cases h
      exact .fail hentry bus
  · cases h

theorem broadcast_spec (h : system.broadcast publish = some system') :
    ∃ entry, system.publishes publish = some entry ∧ system' =
      { system with events := system.events ++ system.subscribers.map fun replicaId => (replicaId, entry.event) }.setPublish publish
        { entry with stage := .published system.subscribers.length, subscribers := some system.subscribers } := by
  obtain ⟨entry, hentry, h⟩ := Option.bind_eq_some_iff.mp h
  split at h
  · cases h
    exact ⟨entry, hentry, rfl⟩
  · cases h

theorem publishStep_failPublish (h : system.failPublish publish = some system') : PublishStep system system' := by
  obtain ⟨entry, hentry, h⟩ := Option.bind_eq_some_iff.mp h
  obtain ⟨bus, -, h⟩ := Option.bind_eq_some_iff.mp h
  split at h
  · cases h
    exact .fail hentry bus
  · cases h
    exact .fail hentry bus
  · cases h

theorem publishStep_resumePublished (h : system.resumePublished publish = some system') : PublishStep system system' := by
  obtain ⟨entry, hentry, h⟩ := Option.bind_eq_some_iff.mp h
  obtain ⟨bus, -, h⟩ := Option.bind_eq_some_iff.mp h
  split at h
  · rename_i recipients hstage
    dsimp only at h
    split at h
    · cases h
      exact .setPublish hentry (.received hstage)
    · cases h
      exact .leave hentry bus fun stage hresult => .ended (.inl hstage) ⟨_, hresult, rfl⟩
  · cases h

theorem publishStep_finish {due : Publish → Bus → Bool} (h : system.finish publish due = some system') :
    PublishStep system system' := by
  obtain ⟨entry, hentry, h⟩ := Option.bind_eq_some_iff.mp h
  obtain ⟨bus, -, h⟩ := Option.bind_eq_some_iff.mp h
  split at h
  · rename_i hstage
    split at h
    · cases h
      exact .leave hentry bus fun stage hresult => .ended (.inr ⟨hstage, rfl⟩) ⟨_, hresult, rfl⟩
    · cases h
  · cases h

theorem publishStep_unsubscribed {ok : Bool} (h : system.unsubscribed publish ok = some system') : PublishStep system system' := by
  obtain ⟨entry, hentry, h⟩ := Option.bind_eq_some_iff.mp h
  obtain ⟨bus, -, h⟩ := Option.bind_eq_some_iff.mp h
  split at h
  · rename_i result hstage
    split at h
    · cases h
      exact .setBus hentry _ _ (.unsubscribed hstage)
    · cases h
      exact .setPublish hentry (.moved trivial)
  · cases h

/-! ### What every step keeps -/

theorem Change.counted {old : Option Publish} (h : Change old entry') :
    entry'.acknowledgedReplicas = [] ∨ ∃ entry, old = some entry ∧ entry'.acknowledgedReplicas = entry.acknowledgedReplicas ∧
      entry'.event = entry.event := by
  cases h with
  | started hcounted _ _ => exact .inl hcounted
  | moved _ | received _ | ended _ _ | unsubscribed _ => exact .inr ⟨_, rfl, rfl, rfl⟩

theorem Inv.setPublish (hinv : system.Inv) (hcounted : entry'.acknowledgedReplicas.Nodup ∧
      ∀ replicaId ∈ entry'.acknowledgedReplicas, system.Completed replicaId entry'.event.eventId) :
    (system.setPublish publish entry').Inv := by
  refine ⟨hinv.handlers, hinv.acks, hinv.verifying, fun other found hfound => ?_, hinv.replicas⟩
  change update system.publishes publish (some entry') other = some found at hfound
  by_cases heq : other = publish
  · subst heq
    rw [update_self] at hfound
    obtain rfl := Option.some.inj hfound
    exact hcounted
  · rw [update_of_ne heq] at hfound
    exact hinv.counted other found hfound

theorem PublishStep.inv (h : PublishStep system system') (hinv : system.Inv) : system'.Inv := by
  obtain ⟨publish, entry', hpublishes, hchange⟩ := h.publishes
  have hcounted : entry'.acknowledgedReplicas.Nodup ∧
      ∀ replicaId ∈ entry'.acknowledgedReplicas, system.Completed replicaId entry'.event.eventId := by
    rcases hchange.counted with hnil | ⟨entry, hentry, hsame, hevent⟩
    · rw [hnil]
      exact ⟨List.nodup_nil, nofun⟩
    · rw [hsame, hevent]
      exact hinv.counted publish entry hentry
  have hchanged : (system.setPublish publish entry').Inv := hinv.setPublish hcounted
  have hcompleted {replicaId eventId : Text} : system'.Completed replicaId eventId = system.Completed replicaId eventId := by
    rw [Completed, h.handlers, Completed]
  refine ⟨h.handlers ▸ hinv.handlers, ?_, ?_, ?_, h.replicas ▸ hinv.replicas⟩
  · simp only [h.acks, hcompleted]
    exact hinv.acks
  · simp only [h.verifying, hcompleted]
    exact hinv.verifying
  · simp only [hpublishes, hcompleted]
    exact hchanged.counted

theorem mem_of_length_le {subscribers acknowledged : List Text} (hnodup : acknowledged.Nodup)
    (hsub : ∀ replicaId ∈ acknowledged, replicaId ∈ subscribers) (hlength : subscribers.length ≤ acknowledged.length) :
    ∀ replicaId ∈ subscribers, replicaId ∈ acknowledged := fun _ hmem =>
  ((List.subperm_of_subset hnodup hsub).perm_of_length_le hlength).mem_iff.mpr hmem

theorem Change.truthful (h : Change (system.publishes publish) entry') (hinv : system.Inv)
    (htruthful : ∀ publish entry, system.publishes publish = some entry → system.Truthful entry) : system.Truthful entry' := by
  have hplain {stage : PublishStage} (hstage : stage.Plain) (entry : Publish) :
      ∀ result, stage = .unsubscribing (some result) ∨ stage = .settled (some result) → system.Says entry result := by
    rintro result (rfl | rfl) hconverged
    · exact absurd (hconverged.symm.trans hstage) nofun
    · exact absurd (hconverged.symm.trans hstage) nofun
  generalize hold : system.publishes publish = old at h
  cases h with
  | started _ hsubscribers hstage =>
    refine ⟨fun subscribers hsome => absurd (hsubscribers.symm.trans hsome) nofun, fun recipients heq => ?_, fun heq => ?_,
      hplain hstage _⟩
    · rw [heq] at hstage
      exact hstage.elim
    · rw [heq] at hstage
      exact hstage.elim
  | @moved entry stage hstage =>
    have hentry := htruthful publish entry hold
    refine ⟨hentry.among, fun recipients heq => ?_, fun heq => ?_, hplain hstage _⟩
    · dsimp only at heq
      rw [heq] at hstage
      exact hstage.elim
    · dsimp only at heq
      rw [heq] at hstage
      exact hstage.elim
  | @received entry recipients _ hstage =>
    have hentry := htruthful publish entry hold
    refine ⟨hentry.among, nofun, fun _ => hentry.published recipients hstage, fun result hresult => ?_⟩
    rcases hresult with heq | heq <;> cases heq
  | @ended entry bus recipients _ stage hbefore hafter =>
    have hentry := htruthful publish entry hold
    obtain ⟨result, hstage, hresult⟩ := hafter
    have hstage' {stage' : PublishStage} (hne : ∀ result, stage' ≠ .unsubscribing (some result) ∧ stage' ≠ .settled (some result)) :
        stage ≠ stage' := by
      rintro rfl
      rcases hstage with heq | heq
      · exact (hne result).1 heq
      · exact (hne result).2 heq
    refine ⟨hentry.among, fun recipients heq => absurd heq (hstage' fun _ => ⟨nofun, nofun⟩),
      fun heq => absurd heq (hstage' fun _ => ⟨nofun, nofun⟩), fun result' hresult' hconverged => ?_⟩
    obtain rfl : result' = result := by
      dsimp only at hresult'
      rcases hstage with rfl | rfl <;> rcases hresult' with heq | heq <;> cases heq <;> rfl
    have hsubscribers : ∃ subscribers, entry.subscribers = some subscribers ∧ recipients = subscribers.length := by
      rcases hbefore with hpublished | ⟨hwaiting, rfl⟩
      · exact hentry.published recipients hpublished
      · exact hentry.waiting hwaiting
    obtain ⟨subscribers, hsome, hlength⟩ := hsubscribers
    obtain ⟨hnodup, hcompleted⟩ := hinv.counted publish entry hold
    rw [hresult] at hconverged
    have henough : recipients ≤ entry.acknowledgedReplicas.length := (of_decide_eq_true hconverged).2
    exact ⟨subscribers, hsome, fun replicaId hmem => hcompleted replicaId
      (mem_of_length_le hnodup (hentry.among subscribers hsome).2 (hlength ▸ henough) replicaId hmem)⟩
  | @unsubscribed entry result hbefore =>
    have hentry := htruthful publish entry hold
    refine ⟨hentry.among, nofun, nofun, fun result' hresult' => ?_⟩
    rcases hresult' with heq | heq
    · cases heq
    · cases heq
      exact hentry.result result' (.inl hbefore)

/-! ### Steps of the handlers and of the messages -/

/-- A step that moves no publish. What is on its way was there, or says what is true. -/
structure MessageStep (system system' : System) : Prop where
  handlers : ∀ replicaId, (system.handlers replicaId).Keeps (system'.handlers replicaId)
  acks : ∀ message ∈ system'.acks, message ∈ system.acks ∨
    system.Completed message.payload.replicaId message.payload.eventId
  verifying : ∀ entry ∈ system'.verifying, entry ∈ system.verifying ∨ system.Completed entry.2.replicaId entry.2.eventId
  publishes : system'.publishes = system.publishes
  replicas : system'.replicas.Nodup

theorem MessageStep.completed (h : MessageStep system system') {eventId : Text} :
    system.Completed replicaId eventId → system'.Completed replicaId eventId := (h.handlers replicaId).2 eventId

theorem MessageStep.inv (h : MessageStep system system') (hinv : system.Inv) : system'.Inv := by
  refine ⟨fun replicaId => (h.handlers replicaId).1, fun message hmem => ?_, fun entry hmem => ?_, fun publish entry hentry => ?_,
    h.replicas⟩
  · rcases h.acks message hmem with hold | hnew
    · exact h.completed (hinv.acks message hold)
    · exact h.completed hnew
  · rcases h.verifying entry hmem with hold | hnew
    · exact h.completed (hinv.verifying entry hold)
    · exact h.completed hnew
  · rw [h.publishes] at hentry
    obtain ⟨hnodup, hcompleted⟩ := hinv.counted publish entry hentry
    exact ⟨hnodup, fun replicaId hmem => h.completed (hcompleted replicaId hmem)⟩

theorem MessageStep.truthful (h : MessageStep system system') (htruthful : system.Truthful entry) : system'.Truthful entry := by
  refine ⟨htruthful.among, htruthful.published, htruthful.waiting, fun result hresult hconverged => ?_⟩
  obtain ⟨subscribers, hsome, hcompleted⟩ := htruthful.result result hresult hconverged
  exact ⟨subscribers, hsome, fun replicaId hmem => h.completed (hcompleted replicaId hmem)⟩

theorem MessageStep.handlers_only (hinv : system.Inv) {handlers' : Handlers}
    (hkeeps : (system.handlers replicaId).Keeps handlers') (hhandlers : system'.handlers = update system.handlers replicaId handlers')
    (hacks : system'.acks = system.acks) (hverifying : system'.verifying = system.verifying)
    (hpublishes : system'.publishes = system.publishes) (hreplicas : system'.replicas = system.replicas) :
    MessageStep system system' := by
  refine ⟨fun other => ?_, fun message hmem => .inl (hacks ▸ hmem), fun entry hmem => .inl (hverifying ▸ hmem), hpublishes,
    hreplicas ▸ hinv.replicas⟩
  rw [hhandlers]
  by_cases heq : other = replicaId
  · subst heq
    rw [update_self]
    exact hkeeps
  · rw [update_of_ne heq]
    exact ⟨hinv.handlers other, fun _ => id⟩

theorem MessageStep.setHandlers (hinv : system.Inv) {handlers : Option Handlers}
    (hkeeps : ∀ handlers', handlers = some handlers' → (system.handlers replicaId).Keeps handlers')
    (h : handlers.map (system.setHandlers replicaId) = some system') : MessageStep system system' := by
  obtain ⟨handlers', hsome, rfl⟩ := Option.map_eq_some_iff.mp h
  exact .handlers_only hinv (hkeeps handlers' hsome) rfl rfl rfl rfl rfl

theorem MessageStep.quiet (hinv : system.Inv) (hhandlers : system'.handlers = system.handlers)
    (hacks : ∀ message ∈ system'.acks, message ∈ system.acks) (hverifying : ∀ entry ∈ system'.verifying,
      entry ∈ system.verifying ∨ system.Completed entry.2.replicaId entry.2.eventId)
    (hpublishes : system'.publishes = system.publishes) (hreplicas : system'.replicas.Nodup) : MessageStep system system' :=
  ⟨fun replicaId => by rw [hhandlers]; exact ⟨hinv.handlers replicaId, fun _ => id⟩, fun message hmem => .inl (hacks message hmem),
    hverifying, hpublishes, hreplicas⟩

theorem messageStep_receiveAck (hinv : system.Inv) {message : AckMessage} (h : system.receiveAck message = some system') :
    MessageStep system system' := by
  obtain ⟨bus, -, h⟩ := Option.bind_eq_some_iff.mp h
  split at h
  · rename_i hmessage
    cases h
    refine .quiet hinv rfl (fun other => List.mem_of_mem_erase) (fun entry hmem => ?_) rfl hinv.replicas
    rcases List.mem_append.mp hmem with hold | hnew
    · exact .inl hold
    · obtain ⟨publish, -, rfl⟩ := List.mem_map.mp hnew
      exact .inr (hinv.acks message hmessage)
  · cases h

theorem messageStep_acknowledge (hinv : system.Inv) {handling : Nat}
    (h : system.acknowledge replicaId handling = some system') : MessageStep system system' := by
  obtain ⟨⟨eventId, handlers'⟩, hacknowledge, h⟩ := Option.bind_eq_some_iff.mp h
  obtain ⟨hkeeps, hcompleted⟩ := Handlers.Keeps.acknowledge (hinv.handlers replicaId) hacknowledge
  cases h
  have hhandlers : MessageStep system (system.setHandlers replicaId handlers') :=
    .handlers_only hinv hkeeps rfl rfl rfl rfl rfl
  refine ⟨hhandlers.handlers, fun message hmem => ?_, fun entry => .inl, rfl, hinv.replicas⟩
  rcases List.mem_append.mp hmem with hold | hnew
  · exact .inl hold
  · obtain ⟨client, -, rfl⟩ := List.mem_map.mp hnew
    exact .inr hcompleted

theorem verifiedAck_spec (hinv : system.Inv) {acknowledgement : RoutingInvalidationAcknowledgement} {valid : Bool}
    (h : system.verifiedAck publish acknowledgement valid = some system') :
    MessageStep system system' ∨ ∃ entry, system.publishes publish = some entry ∧ valid = true ∧
      acknowledgement.eventId = entry.event.eventId ∧
      system.Completed acknowledgement.replicaId entry.event.eventId ∧
      MessageStep system { system with verifying := system.verifying.erase (publish, acknowledgement) } ∧
      system' = { system with verifying := system.verifying.erase (publish, acknowledgement) }.setPublish publish
        (count entry acknowledgement.replicaId) := by
  obtain ⟨entry, hentry, h⟩ := Option.bind_eq_some_iff.mp h
  split at h
  · rename_i hmem
    have hquiet : MessageStep system { system with verifying := system.verifying.erase (publish, acknowledgement) } :=
      .quiet hinv rfl (fun _ => id) (fun entry hmem => .inl (List.mem_of_mem_erase hmem)) rfl hinv.replicas
    dsimp only at h
    split at h
    · cases h
      exact .inl hquiet
    · rename_i acknowledgement' hparse
      obtain ⟨hvalid, rfl⟩ : valid = true ∧ acknowledgement' = acknowledgement := by
        split at hparse
        · rename_i hvalid
          rw [parseAcknowledgement] at hparse
          split at hparse
          · exact ⟨hvalid, (Option.some.inj hparse).symm⟩
          · cases hparse
        · cases hparse
      split at h
      · cases h
        exact .inl hquiet
      · rename_i heq
        have heq := not_not.mp heq
        cases h
        exact .inr ⟨entry, hentry, hvalid, heq, heq ▸ hinv.verifying _ hmem, hquiet, rfl⟩
  · cases h

/-! ### All steps -/

theorem step_cases (hinv : system.Inv) {action : Action} (h : system.step action = some system') :
    PublishStep system system' ∨ MessageStep system system' ∨
      (∃ publish, action = .broadcast publish ∧ system.broadcast publish = some system') ∨
      ∃ publish acknowledgement valid, action = .verifiedAck publish acknowledgement valid ∧
        system.verifiedAck publish acknowledgement valid = some system' := by
  have hbus (replicaId : Text) (bus : Bus) : MessageStep system (system.setBus replicaId bus) :=
    .quiet hinv rfl (fun _ => id) (fun _ => .inl) rfl hinv.replicas
  cases action with
  | start replicaId expectedReplicas =>
    rw [step] at h
    split at h
    · cases h
    · rename_i hnew
      cases h
      refine .inr (.inl (.quiet hinv rfl (fun _ => id) (fun _ => .inl) rfl ?_))
      exact List.nodup_append.mpr ⟨hinv.replicas, List.nodup_singleton _, by
        rintro old hold _ hmem rfl
        exact hnew (List.mem_singleton.mp hmem ▸ hold)⟩
  | disconnect replicaId | close replicaId =>
    obtain ⟨bus, -, rfl⟩ := Option.map_eq_some_iff.mp h
    exact .inr (.inl (hbus _ _))
  | reconnect replicaId =>
    obtain ⟨bus, -, h⟩ := Option.bind_eq_some_iff.mp h
    split at h
    · cases h
    · cases h
      exact .inr (.inl (hbus _ _))
  | loseEvent message =>
    cases h
    exact .inr (.inl (.quiet hinv rfl (fun _ => id) (fun _ => .inl) rfl hinv.replicas))
  | loseAck message =>
    cases h
    exact .inr (.inl (.quiet hinv rfl (fun _ => List.mem_of_mem_erase) (fun _ => .inl) rfl hinv.replicas))
  | receiveEvent message =>
    obtain ⟨replicaId, event⟩ := message
    rw [step] at h
    split at h
    · cases h
      exact .inr (.inl (.handlers_only hinv (.receive (hinv.handlers replicaId) event) rfl rfl rfl rfl rfl))
    · cases h
  | verified replicaId handling valid =>
    exact .inr (.inl (.setHandlers hinv (fun _ => .verified (hinv.handlers replicaId)) h))
  | startHandler replicaId processing =>
    exact .inr (.inl (.setHandlers hinv (fun _ => .startHandler (hinv.handlers replicaId)) h))
  | finishHandler replicaId processing ok =>
    exact .inr (.inl (.setHandlers hinv (fun _ => .finishHandler (hinv.handlers replicaId)) h))
  | settleProcessing replicaId processing =>
    exact .inr (.inl (.setHandlers hinv (fun _ => .settleProcessing (hinv.handlers replicaId)) h))
  | resume replicaId handling =>
    exact .inr (.inl (.setHandlers hinv (fun _ => .resume (hinv.handlers replicaId)) h))
  | signedAck replicaId handling ok =>
    exact .inr (.inl (.setHandlers hinv (fun _ => .signed (hinv.handlers replicaId)) h))
  | acknowledge replicaId handling => exact .inr (.inl (messageStep_acknowledge hinv h))
  | receiveAck message => exact .inr (.inl (messageStep_receiveAck hinv h))
  | verifiedAck publish acknowledgement valid => exact .inr (.inr (.inr ⟨publish, acknowledgement, valid, rfl, h⟩))
  | publish replicaId event => exact .inl (publishStep_publish h)
  | subscribed publish ok => exact .inl (publishStep_subscribed h)
  | resumeSubscribed publish => exact .inl (publishStep_resumeSubscribed h)
  | signedEvent publish ok => exact .inl (publishStep_signedEvent h)
  | broadcast publish => exact .inr (.inr (.inl ⟨publish, rfl, h⟩))
  | failPublish publish => exact .inl (publishStep_failPublish h)
  | resumePublished publish => exact .inl (publishStep_resumePublished h)
  | timeout publish | wake publish => exact .inl (publishStep_finish h)
  | unsubscribed publish ok => exact .inl (publishStep_unsubscribed h)

theorem count_nodup (hnodup : entry.acknowledgedReplicas.Nodup) (replicaId : Text) :
    (count entry replicaId).acknowledgedReplicas.Nodup := by
  dsimp only [count]
  split
  · exact hnodup
  · rename_i hnew
    exact List.nodup_append.mpr ⟨hnodup, List.nodup_singleton _, by
      rintro old hold _ hmem rfl
      exact hnew (List.mem_singleton.mp hmem ▸ hold)⟩

theorem mem_count {other : Text} (h : other ∈ (count entry replicaId).acknowledgedReplicas) :
    other ∈ entry.acknowledgedReplicas ∨ other = replicaId := by
  dsimp only [count] at h
  split at h
  · exact .inl h
  · exact (List.mem_append.mp h).imp_right List.mem_singleton.mp

theorem Inv.step (hinv : system.Inv) {action : Action} (h : system.step action = some system') : system'.Inv := by
  rcases step_cases hinv h with hstep | hstep | ⟨publish, rfl, hbroadcast⟩ | ⟨publish, acknowledgement, valid, rfl, hverified⟩
  · exact hstep.inv hinv
  · exact hstep.inv hinv
  · obtain ⟨entry, hentry, rfl⟩ := broadcast_spec hbroadcast
    have hevents : Inv { system with
        events := system.events ++ system.subscribers.map fun replicaId => (replicaId, entry.event) } :=
      ⟨hinv.handlers, hinv.acks, hinv.verifying, hinv.counted, hinv.replicas⟩
    exact hevents.setPublish (hinv.counted publish entry hentry)
  · rcases verifiedAck_spec hinv hverified with hstep | ⟨entry, hentry, -, -, hcompleted, hstep, rfl⟩
    · exact hstep.inv hinv
    · obtain ⟨hnodup, hcounted⟩ := hinv.counted publish entry hentry
      refine (hstep.inv hinv).setPublish ⟨count_nodup hnodup _, fun replicaId hmem => ?_⟩
      rcases mem_count hmem with hold | rfl
      · exact hcounted replicaId hold
      · exact hcompleted

def countsSubscribers (system : System) : Action → Bool
  | .broadcast publish =>
    (system.publishes publish).all fun entry => entry.acknowledgedReplicas.all (· ∈ system.subscribers)
  | .verifiedAck publish acknowledgement true =>
    (system.publishes publish).all fun entry => entry.subscribers.all (acknowledgement.replicaId ∈ ·)
  | _ => true

theorem Truthful.of_handlers (h : system.Truthful entry) (hhandlers : system'.handlers = system.handlers) : system'.Truthful entry := by
  refine ⟨h.among, h.published, h.waiting, fun result hresult hconverged => ?_⟩
  obtain ⟨subscribers, hsome, hcompleted⟩ := h.result result hresult hconverged
  refine ⟨subscribers, hsome, fun replicaId hmem => ?_⟩
  rw [Completed, hhandlers]
  exact hcompleted replicaId hmem

def AllTruthful (system : System) : Prop := ∀ publish entry, system.publishes publish = some entry → system.Truthful entry

theorem AllTruthful.setPublish (h : system.AllTruthful) (hentry : system.Truthful entry') :
    (system.setPublish publish entry').AllTruthful := by
  intro other found hfound
  change update system.publishes publish (some entry') other = some found at hfound
  by_cases heq : other = publish
  · subst heq
    rw [update_self] at hfound
    obtain rfl := Option.some.inj hfound
    exact hentry.of_handlers rfl
  · rw [update_of_ne heq] at hfound
    exact (h other found hfound).of_handlers rfl

theorem AllTruthful.step (htruthful : system.AllTruthful) (hinv : system.Inv) {action : Action}
    (h : system.step action = some system') (hcounts : system.countsSubscribers action) : system'.AllTruthful := by
  rcases step_cases hinv h with hstep | hstep | ⟨publish, rfl, hbroadcast⟩ | ⟨publish, acknowledgement, valid, rfl, hverified⟩
  · obtain ⟨publish, entry', hpublishes, hchange⟩ := hstep.publishes
    intro other found hfound
    have hchanged : (system.setPublish publish entry').AllTruthful := htruthful.setPublish (hchange.truthful hinv htruthful)
    rw [hpublishes] at hfound
    exact (hchanged other found hfound).of_handlers hstep.handlers
  · intro other found hfound
    rw [hstep.publishes] at hfound
    exact hstep.truthful (htruthful other found hfound)
  · obtain ⟨entry, hentry, rfl⟩ := broadcast_spec hbroadcast
    rw [countsSubscribers, hentry, Option.all_some, List.all_eq_true] at hcounts
    have hevents : AllTruthful { system with
        events := system.events ++ system.subscribers.map fun replicaId => (replicaId, entry.event) } :=
      fun other found hfound => (htruthful other found hfound).of_handlers rfl
    refine hevents.setPublish ⟨fun subscribers hsome => ?_, fun recipients heq => ?_, nofun, fun result hresult => ?_⟩
    · obtain rfl := Option.some.inj hsome
      exact ⟨hinv.replicas.filter _, fun replicaId hmem => of_decide_eq_true (hcounts replicaId hmem)⟩
    · cases heq
      exact ⟨_, rfl, rfl⟩
    · rcases hresult with heq | heq <;> cases heq
  · rcases verifiedAck_spec hinv hverified with hstep | ⟨entry, hentry, rfl, -, -, hstep, rfl⟩
    · intro other found hfound
      rw [hstep.publishes] at hfound
      exact hstep.truthful (htruthful other found hfound)
    · rw [countsSubscribers, hentry, Option.all_some] at hcounts
      have hrest : AllTruthful { system with verifying := system.verifying.erase (publish, acknowledgement) } :=
        fun other found hfound => hstep.truthful (htruthful other found hfound)
      obtain ⟨hamong, hpublished, hwaiting, hresult⟩ := hrest publish entry hentry
      refine hrest.setPublish ⟨fun subscribers hsome => ⟨(hamong subscribers hsome).1, fun replicaId hmem => ?_⟩, hpublished,
        hwaiting, hresult⟩
      rcases mem_count hmem with hold | rfl
      · exact (hamong subscribers hsome).2 replicaId hold
      · change entry.subscribers = some subscribers at hsome
        rw [hsome] at hcounts
        exact of_decide_eq_true hcounts

/-! ## Runs -/

def runCountsSubscribers : System → List Action → Bool
  | _, [] => true
  | system, action :: actions =>
    system.countsSubscribers action && (system.step action).all fun system => runCountsSubscribers system actions

theorem inv_initial : System.initial.Inv where
  handlers _ := Handlers.inv_empty
  acks _ := nofun
  verifying _ := nofun
  counted _ _ := nofun
  replicas := List.nodup_nil

theorem Inv.steps {actions : List Action} (hinv : system.Inv) (h : actions.foldlM System.step system = some system') :
    system'.Inv ∧ (system.AllTruthful → system.runCountsSubscribers actions → system'.AllTruthful) := by
  induction actions generalizing system with
  | nil =>
    cases h
    exact ⟨hinv, fun htruthful _ => htruthful⟩
  | cons action actions ih =>
    rw [List.foldlM_cons] at h
    obtain ⟨middle, hstep, hrest⟩ := Option.bind_eq_some_iff.mp h
    obtain ⟨hinv', htruthful'⟩ := ih (hinv.step hstep) hrest
    refine ⟨hinv', fun htruthful hcounts => ?_⟩
    rw [runCountsSubscribers, hstep, Bool.and_eq_true, Option.all_some] at hcounts
    exact htruthful' (htruthful.step hinv hstep hcounts.1) hcounts.2

end System

variable {system : System} {actions : List Action}

theorem run_inv (h : run actions = some system) : system.Inv := (System.inv_initial.steps h).1

/-- A replica acknowledges what it has handled, and handles an event once at a time. A publish that counts
no replica but those subscribed when its event was published says that it converged only if all of them have handled it. -/
theorem run_converged (h : run actions = some system) :
    (∀ replicaId handling event stage, (system.handlers replicaId).handlings handling = some ⟨event, stage⟩ →
        stage = .publishing ∨ stage = .acknowledged → system.Completed replicaId event.eventId) ∧
      (∀ replicaId eventId processing processing',
        (system.handlers replicaId).processings processing = some ⟨eventId, .running⟩ →
        (system.handlers replicaId).processings processing' = some ⟨eventId, .running⟩ → processing = processing') ∧
      (System.initial.runCountsSubscribers actions → ∀ publish entry result, system.publishes publish = some entry →
        entry.stage = .settled (some result) → result.converged → ∃ subscribers, entry.subscribers = some subscribers ∧
          ∀ replicaId ∈ subscribers, system.Completed replicaId entry.event.eventId) := by
  obtain ⟨hinv, htruthful⟩ := System.inv_initial.steps h
  refine ⟨fun replicaId handling event stage hfound hstage => ?_,
    fun replicaId eventId processing processing' => (hinv.handlers replicaId).exclusive,
    fun hcounts publish entry result hentry hstage => ?_⟩
  · have hjustified := (hinv.handlers replicaId).justified handling _ hfound
    rcases hstage with rfl | rfl <;> exact hjustified
  exact (htruthful (fun _ _ => nofun) hcounts publish entry hentry).result result (.inr hstage)

/-! ## Two replicas, and one that comes late -/

def activation : ProxyRoutingInvalidationEvent := ⟨1, .of "e", .of "p", .of "p", .of "d", .of "v", .of "v", .of "r"⟩

def handles (replicaId : Text) (client : Text) : List Action :=
  [.receiveEvent (replicaId, activation), .verified replicaId 0 true, .startHandler replicaId 1, .finishHandler replicaId 1 true,
    .settleProcessing replicaId 1, .resume replicaId 0, .signedAck replicaId 0 true, .acknowledge replicaId 0,
    .receiveAck ⟨client, acknowledgementChannel (.of "e"), ⟨.of "e", replicaId⟩⟩]

def pair : List Action :=
  [.start (.of "a") (some 2), .start (.of "b") none, .publish (.of "a") activation, .subscribed 0 true, .resumeSubscribed 0,
    .signedEvent 0 true, .broadcast 0, .resumePublished 0] ++ handles (.of "b") (.of "a") ++ handles (.of "a") (.of "a") ++
  [.verifiedAck 0 ⟨.of "e", .of "a"⟩ true, .verifiedAck 0 ⟨.of "e", .of "b"⟩ true, .wake 0, .unsubscribed 0 true]

theorem run_converged_pair : ∃ system entry, run pair = some system ∧ system.publishes 0 = some entry ∧
    entry.stage = .settled (some ⟨2, true, 2⟩) ∧ entry.subscribers = some [.of "a", .of "b"] ∧
    system.Completed (.of "a") entry.event.eventId ∧ system.Completed (.of "b") entry.event.eventId := by
  obtain ⟨system, hrun⟩ := Option.isSome_iff_exists.mp (by decide : (run pair).isSome)
  have hpublish : (run pair).bind (fun system => (system.publishes 0).map fun entry => (entry.stage, entry.subscribers)) =
      some (.settled (some ⟨2, true, 2⟩), some [.of "a", .of "b"]) := by decide
  rw [hrun, Option.bind_some] at hpublish
  obtain ⟨entry, hentry, hfound⟩ := Option.map_eq_some_iff.mp hpublish
  obtain ⟨hstage, hsubscribers⟩ := Prod.mk.inj hfound
  obtain ⟨subscribers, hsome, hcompleted⟩ :=
    (run_converged hrun).2.2 (by decide) 0 entry _ hentry hstage rfl
  obtain rfl := Option.some.inj (hsubscribers.symm.trans hsome)
  exact ⟨system, entry, hrun, hentry, hstage, hsubscribers, hcompleted _ (by simp), hcompleted _ (by simp)⟩

/-- The second publish of an event hears of `b`, which then leaves, and counts it for `c`, which has come. -/
def replaced : List Action :=
  [.start (.of "a") none, .start (.of "b") none, .publish (.of "a") activation, .subscribed 0 true, .resumeSubscribed 0,
    .signedEvent 0 true, .broadcast 0, .resumePublished 0, .publish (.of "a") activation] ++ handles (.of "b") (.of "a") ++
  [.verifiedAck 2 ⟨.of "e", .of "b"⟩ true, .close (.of "b"), .disconnect (.of "b"), .start (.of "c") none, .signedEvent 2 true,
    .broadcast 2, .resumePublished 2] ++ handles (.of "a") (.of "a") ++ [.verifiedAck 2 ⟨.of "e", .of "a"⟩ true, .wake 2]

theorem replaced_not_handled : ∃ system entry, run replaced = some system ∧ system.publishes 2 = some entry ∧
    entry.stage = .settled (some ⟨2, true, 2⟩) ∧ entry.subscribers = some [.of "a", .of "c"] ∧
    ¬ system.Completed (.of "c") entry.event.eventId := by
  obtain ⟨system, hrun⟩ := Option.isSome_iff_exists.mp (by decide : (run replaced).isSome)
  have hpublish : (run replaced).bind (fun system => (system.publishes 2).map fun entry => (entry.stage, entry.subscribers)) =
      some (.settled (some ⟨2, true, 2⟩), some [.of "a", .of "c"]) := by decide
  have hlate : (run replaced).map (fun system => (system.handlers (.of "c")).allocated) = some 0 := by decide
  rw [hrun, Option.bind_some] at hpublish
  rw [hrun, Option.map_some, Option.some_inj] at hlate
  obtain ⟨entry, hentry, hpair⟩ := Option.map_eq_some_iff.mp hpublish
  obtain ⟨hstage, hsubscribers⟩ := Prod.mk.inj hpair
  refine ⟨system, entry, hrun, hentry, hstage, hsubscribers, ?_⟩
  rintro ⟨processing, stage, hprocessing, -⟩
  rw [((run_inv hrun).handlers (.of "c")).fresh processing (hlate ▸ Nat.zero_le _)] at hprocessing
  cases hprocessing

end Veryfront.Proxy.RoutingInvalidation
