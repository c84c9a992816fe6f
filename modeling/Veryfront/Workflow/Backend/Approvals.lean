import Veryfront.Lib.Runs
import Veryfront.Workflow.Backend.Memory

/-!
# Approval records

Appends, decisions, recovery leases and finalizations race for the approval records of one run. What
each call can do to them is one move of a list, and the moves keep at most one live approval for each
wait execution.
-/

namespace Veryfront.Workflow

open Veryfront.Lib

/-! ## The calls -/

inductive ApprovalCall
  | savePendingApprovalIfAbsent (approval : PersistedPendingApproval)
  | savePendingApprovalIfStatusAndWorker (expectedStatuses : List WorkflowStatus) (expectedWorkerId : String)
      (approval : PersistedPendingApproval)
  | updateApproval (now : Timestamp) (approvalId : String) (decision : ApprovalDecision)
  | reserveApprovalDecisionClaim (approvalId recoveryClaimId : String) (claimedAt staleBefore : Timestamp)
  | releaseApprovalDecisionClaim (approvalId recoveryClaimId : String)
  | finalizeApprovalDecision (approvalId : String) (recoveryClaimId : Option String)

namespace ApprovalCall

def resolvesTrue (reply : Reply Bool) : Bool × MemoryBackend :=
  (reply.1.toOption = some true, reply.2)

/-- Whether the call resolves true, and the state after it. The last two calls resolve without a value. -/
def exec (r : String) (b : MemoryBackend) : ApprovalCall → Bool × MemoryBackend
  | savePendingApprovalIfAbsent approval => resolvesTrue (b.savePendingApprovalIfAbsent r approval)
  | savePendingApprovalIfStatusAndWorker statuses worker approval =>
    resolvesTrue (b.savePendingApprovalIfStatusAndWorker r statuses worker approval)
  | updateApproval now approvalId decision => resolvesTrue (b.updateApproval now r approvalId decision)
  | reserveApprovalDecisionClaim approvalId token claimedAt staleBefore =>
    resolvesTrue (b.reserveApprovalDecisionClaim r approvalId token claimedAt staleBefore)
  | releaseApprovalDecisionClaim approvalId token => (false, (b.releaseApprovalDecisionClaim r approvalId token).2)
  | finalizeApprovalDecision approvalId token => (false, (b.finalizeApprovalDecision r approvalId token).2)

def appends : ApprovalCall → Option PersistedPendingApproval
  | savePendingApprovalIfAbsent approval => some approval
  | savePendingApprovalIfStatusAndWorker _ _ approval => some approval
  | _ => none

def decides : ApprovalCall → Option String
  | updateApproval _ approvalId _ => some approvalId
  | _ => none

/-- The call may change the reservation `token` of a record: it carries the token, or it replaces a
reservation that has become stale. -/
def MayEndReservation (a : PersistedPendingApproval) (token : String) : ApprovalCall → Prop
  | releaseApprovalDecisionClaim approvalId t => approvalId = a.id ∧ t = token
  | finalizeApprovalDecision approvalId t => approvalId = a.id ∧ t = some token
  | reserveApprovalDecisionClaim approvalId _ _ staleBefore =>
    approvalId = a.id ∧ a.recoveryClaimedAt.all (· ≤ staleBefore)
  | _ => False

end ApprovalCall

/-! ## The moves -/

abbrev Approvals := List PersistedPendingApproval

/-- What a call does to the records, and whether it resolves true. -/
inductive ApprovalMove (l : Approvals) : ApprovalCall → Bool → Approvals → Prop
  | refuse (c : ApprovalCall) : ApprovalMove l c false l
  | append {c : ApprovalCall} {approval : PersistedPendingApproval} {kept : Approvals} :
      c.appends = some approval → kept.Sublist l → (∀ a ∈ l, isDecided a = false → a ∈ kept) →
      MemoryBackend.hasLiveApprovalFor l approval = false → ApprovalMove l c true (kept ++ [approval])
  | decide {now : Timestamp} {decision : ApprovalDecision} {a : PersistedPendingApproval} :
      a ∈ l → a.status = .pending →
      ApprovalMove l (.updateApproval now a.id decision) true
        (modifyFirst (fun x => x.id = a.id) (MemoryBackend.decideApproval now decision) l)
  | reserve {token : String} {claimedAt staleBefore : Timestamp} {a : PersistedPendingApproval} :
      a ∈ l → a.reconciliationPending = true → a.recoveryClaimedAt.all (· ≤ staleBefore) →
      ApprovalMove l (.reserveApprovalDecisionClaim a.id token claimedAt staleBefore) true
        (modifyFirst (fun x => x.id = a.id)
          (fun x => { x with recoveryClaimId := some token, recoveryClaimedAt := some claimedAt }) l)
  | release {token : String} {a : PersistedPendingApproval} :
      a ∈ l → a.recoveryClaimId = some token →
      ApprovalMove l (.releaseApprovalDecisionClaim a.id token) false
        (modifyFirst (fun x => x.id = a.id)
          (fun x => { x with recoveryClaimId := none, recoveryClaimedAt := none }) l)
  | finalize {token : Option String} {a : PersistedPendingApproval} :
      a ∈ l → a.recoveryClaimId = token →
      ApprovalMove l (.finalizeApprovalDecision a.id token) false
        (modifyFirst (fun x => x.id = a.id)
          (fun x =>
            { x with reconciliationPending := false, recoveryClaimId := none, recoveryClaimedAt := none }) l)

namespace MemoryBackend

variable {b : MemoryBackend} {r q : String}

@[simp] theorem approvalsOf_advance : (b.advanceRunRetentionRevision q).approvalsOf r = b.approvalsOf r := by
  unfold advanceRunRetentionRevision; split <;> rfl

@[simp] theorem approvalsOf_setApprovals (l : Approvals) :
    (b.setApprovals q l).approvalsOf r = if r = q then l else b.approvalsOf r := by
  by_cases h : r = q <;> simp [setApprovals, approvalsOf, h]

@[simp] theorem approvalsOf_storeApproval (l : Approvals) :
    (b.storeApproval q l).approvalsOf r = if r = q then l else b.approvalsOf r := by
  unfold storeApproval
  split
  · rw [publishRunObservation, approvalsOf_advance, ← approvalsOf_setApprovals]
    rfl
  · exact approvalsOf_setApprovals l

@[simp] theorem approvalsOf_changeApproval (id : String) (f : PersistedPendingApproval → PersistedPendingApproval) :
    (b.changeApproval q id f).approvalsOf r =
      if r = q then modifyFirst (fun a => a.id = id) f (b.approvalsOf q) else b.approvalsOf r := by
  rw [changeApproval, approvalsOf_advance, approvalsOf_setApprovals]

theorem findApproval_some {id : String} {a : PersistedPendingApproval} (h : b.findApproval r id = some a) :
    a ∈ b.approvalsOf r ∧ a.id = id :=
  ⟨List.mem_of_find?_eq_some h, by simpa using List.find?_some h⟩

end MemoryBackend

namespace ApprovalCall

variable {b : MemoryBackend} {r : String}

theorem savePendingApprovalIfAbsent_move {c : ApprovalCall} {approval : PersistedPendingApproval}
    (hc : c.appends = some approval) :
    ApprovalMove (b.approvalsOf r) c (resolvesTrue (b.savePendingApprovalIfAbsent r approval)).1
      ((resolvesTrue (b.savePendingApprovalIfAbsent r approval)).2.approvalsOf r) := by
  unfold MemoryBackend.savePendingApprovalIfAbsent
  split
  · exact .refuse c
  · rename_i hlive
    split
    · exact .refuse c
    · rename_i approvals happend
      obtain ⟨kept, hsub, hkept, rfl⟩ := appendRetained_ok happend
      rw [resolvesTrue, MemoryBackend.approvalsOf_storeApproval, if_pos rfl]
      exact .append hc hsub hkept (by simpa using hlive)

theorem move (c : ApprovalCall) :
    ApprovalMove (b.approvalsOf r) c (c.exec r b).1 ((c.exec r b).2.approvalsOf r) := by
  cases c with
  | savePendingApprovalIfAbsent approval => exact savePendingApprovalIfAbsent_move rfl
  | savePendingApprovalIfStatusAndWorker statuses worker approval =>
    simp only [exec, MemoryBackend.savePendingApprovalIfStatusAndWorker]
    split
    · exact .refuse _
    · split
      · exact savePendingApprovalIfAbsent_move rfl
      · exact .refuse _
  | updateApproval now approvalId decision =>
    simp only [exec, MemoryBackend.updateApproval]
    split
    · exact .refuse _
    · split
      · exact .refuse _
      · rename_i a ha
        obtain ⟨hmem, rfl⟩ := MemoryBackend.findApproval_some ha
        split
        · exact .refuse _
        · rename_i hpending
          rw [resolvesTrue, MemoryBackend.approvalsOf_changeApproval, if_pos rfl]
          exact .decide hmem (by simpa using hpending)
  | reserveApprovalDecisionClaim approvalId token claimedAt staleBefore =>
    simp only [exec, MemoryBackend.reserveApprovalDecisionClaim]
    split
    · exact .refuse _
    · rename_i a ha
      obtain ⟨hmem, rfl⟩ := MemoryBackend.findApproval_some ha
      split
      · exact .refuse _
      · rename_i hpending
        split
        · exact .refuse _
        · rename_i hstale
          rw [resolvesTrue, MemoryBackend.approvalsOf_changeApproval, if_pos rfl]
          refine .reserve hmem (by simpa using hpending) ?_
          cases hat : a.recoveryClaimedAt with
          | none => rfl
          | some at_ => simpa [hat] using hstale
  | releaseApprovalDecisionClaim approvalId token =>
    simp only [exec, MemoryBackend.releaseApprovalDecisionClaim]
    split
    · exact .refuse _
    · rename_i a ha
      obtain ⟨hmem, rfl⟩ := MemoryBackend.findApproval_some ha
      split
      · rename_i htoken
        rw [MemoryBackend.approvalsOf_changeApproval, if_pos rfl]
        exact .release hmem htoken
      · exact .refuse _
  | finalizeApprovalDecision approvalId token =>
    simp only [exec, MemoryBackend.finalizeApprovalDecision]
    split
    · exact .refuse _
    · rename_i a ha
      obtain ⟨hmem, rfl⟩ := MemoryBackend.findApproval_some ha
      split
      · exact .refuse _
      · rename_i htoken
        rw [MemoryBackend.approvalsOf_changeApproval, if_pos rfl]
        exact .finalize hmem (by simpa using htoken)

end ApprovalCall

/-! ## The invariant -/

/-- `saved` are the ids appended and `decided` the ids decided so far. -/
structure ApprovalsExclusive (l : Approvals) (saved decided : List String) : Prop where
  distinct : (l.map PersistedPendingApproval.id).Nodup
  savedIds : ∀ a ∈ l, a.id ∈ saved
  instances : ∀ a ∈ l, a.waitInstanceId.isSome
  oneLive : ∀ a ∈ l, ∀ c ∈ l, MemoryBackend.isLiveApproval a → MemoryBackend.isLiveApproval c →
    a.nodeId = c.nodeId → a.waitInstanceId = c.waitInstanceId → a.id = c.id
  decidedSaved : ∀ id ∈ decided, id ∈ saved
  decidedFinal : ∀ a ∈ l, a.id ∈ decided → a.status ≠ .pending
  decidedOnce : decided.Nodup

namespace ApprovalsExclusive

variable {l l' : Approvals} {saved decided : List String}

theorem empty : ApprovalsExclusive [] [] [] where
  distinct := List.nodup_nil
  savedIds := by simp
  instances := by simp
  oneLive := by simp
  decidedSaved := by simp
  decidedFinal := by simp
  decidedOnce := List.nodup_nil

variable {a : PersistedPendingApproval}

theorem mem_changed (h : ApprovalsExclusive l saved decided) (ha : a ∈ l)
    (f : PersistedPendingApproval → PersistedPendingApproval) (x : PersistedPendingApproval) :
    x ∈ modifyFirst (fun y => y.id = a.id) f l ↔ (x ∈ l ∧ x.id ≠ a.id) ∨ x = f a := by
  rw [mem_modifyFirst_key h.distinct]
  constructor
  · rintro (hx | ⟨y, hy, hid, rfl⟩)
    · exact .inl hx
    · exact .inr (by rw [List.inj_on_of_nodup_map h.distinct hy ha hid])
  · rintro (hx | rfl)
    · exact .inl hx
    · exact .inr ⟨a, ha, rfl, rfl⟩

theorem change (h : ApprovalsExclusive l saved decided) (ha : a ∈ l)
    {f : PersistedPendingApproval → PersistedPendingApproval} (hid : ∀ x, (f x).id = x.id)
    (hnode : (f a).nodeId = a.nodeId) (hinstance : (f a).waitInstanceId = a.waitInstanceId)
    (hlive : MemoryBackend.isLiveApproval (f a) → MemoryBackend.isLiveApproval a)
    (hstatus : a.status ≠ .pending → (f a).status ≠ .pending) :
    ApprovalsExclusive (modifyFirst (fun y => y.id = a.id) f l) saved decided where
  distinct := by
    rw [map_modifyFirst fun x _ => hid x]
    exact h.distinct
  savedIds := by
    intro x hx
    rcases (h.mem_changed ha f x).mp hx with ⟨hx, -⟩ | rfl
    · exact h.savedIds x hx
    · rw [hid]
      exact h.savedIds a ha
  instances := by
    intro x hx
    rcases (h.mem_changed ha f x).mp hx with ⟨hx, -⟩ | rfl
    · exact h.instances x hx
    · rw [hinstance]
      exact h.instances a ha
  oneLive := by
    intro x hx y hy hlx hly hn hi
    rcases (h.mem_changed ha f x).mp hx with ⟨hx, hxa⟩ | rfl <;>
      rcases (h.mem_changed ha f y).mp hy with ⟨hy, hya⟩ | rfl
    · exact h.oneLive x hx y hy hlx hly hn hi
    · rw [hid]
      exact h.oneLive x hx a ha hlx (hlive hly) (hn.trans hnode) (hi.trans hinstance)
    · rw [hid]
      exact h.oneLive a ha y hy (hlive hlx) hly (hnode.symm.trans hn) (hinstance.symm.trans hi)
    · rfl
  decidedSaved := h.decidedSaved
  decidedFinal := by
    intro x hx hdecided
    rcases (h.mem_changed ha f x).mp hx with ⟨hx, -⟩ | rfl
    · exact h.decidedFinal x hx hdecided
    · rw [hid] at hdecided
      exact hstatus (h.decidedFinal a ha hdecided)
  decidedOnce := h.decidedOnce

theorem decide (h : ApprovalsExclusive l saved decided) (ha : a ∈ l)
    (hpending : a.status = .pending) (now : Timestamp) (decision : ApprovalDecision) :
    ApprovalsExclusive (modifyFirst (fun y => y.id = a.id) (MemoryBackend.decideApproval now decision) l)
      saved (decided ++ [a.id]) := by
  have hdecided : (MemoryBackend.decideApproval now decision a).status ≠ .pending := by
    simp only [MemoryBackend.decideApproval]
    split <;> simp
  have h' := h.change ha (f := MemoryBackend.decideApproval now decision) (fun _ => rfl) rfl rfl
    (fun _ => by simp [MemoryBackend.isLiveApproval, hpending]) fun _ => hdecided
  refine { h' with decidedSaved := ?_, decidedFinal := ?_, decidedOnce := ?_ }
  · intro id hid
    rcases List.mem_append.mp hid with hid | hid
    · exact h.decidedSaved id hid
    · rw [List.mem_singleton.mp hid]
      exact h.savedIds a ha
  · intro x hx hid
    rcases List.mem_append.mp hid with hid | hid
    · exact h'.decidedFinal x hx hid
    · rcases (h.mem_changed ha _ x).mp hx with ⟨-, hne⟩ | rfl
      · exact absurd (List.mem_singleton.mp hid) hne
      · exact hdecided
  · rw [List.nodup_append]
    refine ⟨h.decidedOnce, by simp, ?_⟩
    intro id hid id' hid' heq
    rw [List.mem_singleton.mp hid'] at heq
    exact h.decidedFinal a ha (heq ▸ hid) hpending

theorem append (h : ApprovalsExclusive l saved decided) {approval : PersistedPendingApproval} {kept : Approvals}
    (hsub : kept.Sublist l) (hlive : MemoryBackend.hasLiveApprovalFor l approval = false)
    (hnew : approval.id ∉ saved) (hinstance : approval.waitInstanceId.isSome) :
    ApprovalsExclusive (kept ++ [approval]) (saved ++ [approval.id]) decided := by
  -- no kept record is live for the new record's execution
  have hother : ∀ a ∈ kept, MemoryBackend.isLiveApproval a → a.nodeId = approval.nodeId →
      a.waitInstanceId ≠ approval.waitInstanceId := by
    intro a ha hla hnode hinst
    simp only [MemoryBackend.hasLiveApprovalFor, List.any_eq_false] at hlive
    refine hlive a (hsub.subset ha) ?_
    simp [hla, isSameWaitNodeExecution, hnode, hinst]
  refine ⟨?_, ?_, ?_, ?_, ?_, ?_, h.decidedOnce⟩
  · rw [List.map_append, List.nodup_append]
    refine ⟨h.distinct.sublist (hsub.map _), by simp, ?_⟩
    simp only [List.mem_map, List.map_cons, List.map_nil, List.mem_singleton, forall_eq, forall_exists_index,
      and_imp, forall_apply_eq_imp_iff₂]
    exact fun a ha heq => hnew (heq ▸ h.savedIds a (hsub.subset ha))
  · intro a ha
    rcases List.mem_append.mp ha with ha | ha
    · exact List.mem_append_left _ (h.savedIds a (hsub.subset ha))
    · rw [List.mem_singleton.mp ha]
      simp
  · intro a ha
    rcases List.mem_append.mp ha with ha | ha
    · exact h.instances a (hsub.subset ha)
    · rw [List.mem_singleton.mp ha]
      exact hinstance
  · intro a ha c hc hla hlc hn hi
    rcases List.mem_append.mp ha with hak | hak <;> rcases List.mem_append.mp hc with hck | hck
    · exact h.oneLive a (hsub.subset hak) c (hsub.subset hck) hla hlc hn hi
    · obtain rfl := List.mem_singleton.mp hck
      exact absurd hi (hother a hak hla hn)
    · obtain rfl := List.mem_singleton.mp hak
      exact absurd hi.symm (hother c hck hlc hn.symm)
    · rw [List.mem_singleton.mp hak, List.mem_singleton.mp hck]
  · intro id hid
    exact List.mem_append_left _ (h.decidedSaved id hid)
  · intro a ha hid
    rcases List.mem_append.mp ha with ha | ha
    · exact h.decidedFinal a (hsub.subset ha) hid
    · obtain rfl := List.mem_singleton.mp ha
      exact absurd (h.decidedSaved _ hid) hnew

theorem step (h : ApprovalsExclusive l saved decided) {c : ApprovalCall} {ok : Bool} (hmove : ApprovalMove l c ok l')
    (hnew : ∀ approval, c.appends = some approval → approval.id ∉ saved ∧ approval.waitInstanceId.isSome) :
    ApprovalsExclusive l' (saved ++ if ok then (c.appends.map PersistedPendingApproval.id).toList else [])
      (decided ++ if ok then c.decides.toList else []) := by
  cases hmove with
  | refuse => simpa using h
  | append hc hsub hkept hlive =>
    have hdecides : c.decides = none := by cases c <;> first | rfl | cases hc
    simpa [hc, hdecides] using h.append hsub hlive (hnew _ hc).1 (hnew _ hc).2
  | @decide now decision a ha hpending =>
    simpa [ApprovalCall.appends, ApprovalCall.decides] using h.decide ha hpending now decision
  | reserve ha hpending =>
    simp only [ApprovalCall.appends, ApprovalCall.decides, Option.map_none, Option.toList_none, ite_self,
      List.append_nil]
    exact h.change ha (fun _ => rfl) rfl rfl (fun hlive => hlive) fun hstatus => hstatus
  | release ha =>
    simp only [Bool.false_eq_true, if_false, List.append_nil]
    exact h.change ha (fun _ => rfl) rfl rfl (fun hlive => hlive) fun hstatus => hstatus
  | finalize ha =>
    simp only [Bool.false_eq_true, if_false, List.append_nil]
    refine h.change ha (fun _ => rfl) rfl rfl (fun hlive => ?_) fun hstatus => hstatus
    simp only [MemoryBackend.isLiveApproval, Bool.or_false, decide_eq_true_eq] at hlive
    simp [MemoryBackend.isLiveApproval, hlive]

theorem live_kept {c : ApprovalCall} {ok : Bool}
    (hmove : ApprovalMove l c ok l') (ha : a ∈ l)
    (hlive : MemoryBackend.isLiveApproval a) : ∃ a' ∈ l', a'.id = a.id := by
  have hchanged : ∀ k (f : PersistedPendingApproval → PersistedPendingApproval), (∀ x, (f x).id = x.id) →
      ∃ a' ∈ modifyFirst (fun x => x.id = k) f l, a'.id = a.id := by
    intro k f hf
    rw [← List.mem_map (f := PersistedPendingApproval.id), map_modifyFirst fun x _ => hf x]
    exact List.mem_map_of_mem ha
  cases hmove with
  | refuse => exact ⟨a, ha, rfl⟩
  | append hc hsub hkept =>
    refine ⟨a, List.mem_append_left _ (hkept a ha ?_), rfl⟩
    simp only [MemoryBackend.isLiveApproval, Bool.or_eq_true, decide_eq_true_eq] at hlive
    rcases hlive with hlive | hlive <;> simp [isDecided, hlive]
  | decide => exact hchanged _ _ fun _ => rfl
  | reserve => exact hchanged _ _ fun _ => rfl
  | release => exact hchanged _ _ fun _ => rfl
  | finalize => exact hchanged _ _ fun _ => rfl

theorem reservation_kept (h : ApprovalsExclusive l saved decided) {c : ApprovalCall} {ok : Bool}
    (hmove : ApprovalMove l c ok l') {token : String} (ha : a ∈ l)
    (htoken : a.recoveryClaimId = some token) (hpending : a.reconciliationPending = true)
    (hc : ¬ c.MayEndReservation a token) :
    ∃ a' ∈ l', a'.id = a.id ∧ a'.recoveryClaimId = some token ∧ a'.recoveryClaimedAt = a.recoveryClaimedAt ∧
      a'.reconciliationPending = true := by
  have hother : ∀ {k : PersistedPendingApproval}, k ∈ l → a.id ≠ k.id →
      ∀ f, a ∈ modifyFirst (fun x => x.id = k.id) f l :=
    fun hk hne f => (h.mem_changed hk f a).mpr (.inl ⟨ha, hne⟩)
  have hsame : ∀ {k : PersistedPendingApproval}, k ∈ l → a.id = k.id → k = a :=
    fun hk heq => (List.inj_on_of_nodup_map h.distinct ha hk heq).symm
  cases hmove with
  | refuse => exact ⟨a, ha, rfl, htoken, rfl, hpending⟩
  | append hc hsub hkept =>
    exact ⟨a, List.mem_append_left _ (hkept a ha (by simp [isDecided, hpending])), rfl, htoken, rfl, hpending⟩
  | @decide now decision k hk hkp =>
    by_cases hid : a.id = k.id
    · obtain rfl := hsame hk hid
      exact ⟨_, (h.mem_changed hk _ _).mpr (.inr rfl), rfl, htoken, rfl, rfl⟩
    · exact ⟨a, hother hk hid _, rfl, htoken, rfl, hpending⟩
  | @reserve t claimedAt staleBefore k hk hkp hstale =>
    by_cases hid : a.id = k.id
    · obtain rfl := hsame hk hid
      exact absurd ⟨rfl, hstale⟩ hc
    · exact ⟨a, hother hk hid _, rfl, htoken, rfl, hpending⟩
  | @release t k hk hkt =>
    by_cases hid : a.id = k.id
    · obtain rfl := hsame hk hid
      exact absurd ⟨rfl, Option.some.inj (hkt.symm.trans htoken)⟩ hc
    · exact ⟨a, hother hk hid _, rfl, htoken, rfl, hpending⟩
  | @finalize t k hk hkt =>
    by_cases hid : a.id = k.id
    · obtain rfl := hsame hk hid
      exact absurd ⟨rfl, hkt.symm.trans htoken⟩ hc
    · exact ⟨a, hother hk hid _, rfl, htoken, rfl, hpending⟩

end ApprovalsExclusive

/-! ## Every interleaving -/

/-- The backend, with the ids of one run's approvals appended and decided so far. -/
structure ApprovalWorld where
  backend : MemoryBackend
  saved : List String
  decided : List String

namespace ApprovalWorld

def afterCall (r : String) (w : ApprovalWorld) (c : ApprovalCall) : ApprovalWorld :=
  let (ok, b) := c.exec r w.backend
  ⟨b, w.saved ++ if ok then (c.appends.map PersistedPendingApproval.id).toList else [],
    w.decided ++ if ok then c.decides.toList else []⟩

end ApprovalWorld

/-- An appended record has an id of its own and names its wait execution. -/
def ApprovalCall.Fresh (w : ApprovalWorld) (c : ApprovalCall) : Prop :=
  ∀ approval, c.appends = some approval → approval.id ∉ w.saved ∧ approval.waitInstanceId.isSome

inductive ApprovalStep (r : String) : ApprovalWorld → Option ApprovalCall → ApprovalWorld → Prop
  | call {w : ApprovalWorld} (c : ApprovalCall) : c.Fresh w → ApprovalStep r w (some c) (w.afterCall r c)
  | other {w : ApprovalWorld} {b : MemoryBackend} : b.approvalsOf r = w.backend.approvalsOf r →
      ApprovalStep r w none { w with backend := b }

theorem ApprovalStep.exclusive {r : String} {w w' : ApprovalWorld} {c : Option ApprovalCall}
    (h : ApprovalsExclusive (w.backend.approvalsOf r) w.saved w.decided) (hstep : ApprovalStep r w c w') :
    ApprovalsExclusive (w'.backend.approvalsOf r) w'.saved w'.decided := by
  cases hstep with
  | call c hfresh => exact h.step c.move hfresh
  | other hsame =>
    rw [hsame]
    exact h

theorem run_exclusive {r : String} {b : MemoryBackend} (hstart : b.approvalsOf r = [])
    {calls : List (Option ApprovalCall)} {w : ApprovalWorld} (hrun : Run (ApprovalStep r) ⟨b, [], []⟩ calls w) :
    ApprovalsExclusive (w.backend.approvalsOf r) w.saved w.decided := by
  refine Run.invariant (fun w => ApprovalsExclusive (w.backend.approvalsOf r) w.saved w.decided) ?_ ?_ hrun
  · simp only [hstart]
    exact .empty
  · intro w c w' h hstep
    exact hstep.exclusive h

/-- However the calls on a run's approvals interleave: each wait execution has at most one live
approval, each approval is decided at most once, a live approval outlives every call and is left alone
by a rejected append, and a reservation ends only at the hand of its holder or once it is stale. -/
theorem approval_decisions_exclusive {r : String} {b : MemoryBackend} (hstart : b.approvalsOf r = [])
    {calls : List (Option ApprovalCall)} {w : ApprovalWorld} (hrun : Run (ApprovalStep r) ⟨b, [], []⟩ calls w) :
    (∀ a ∈ w.backend.approvalsOf r, ∀ c ∈ w.backend.approvalsOf r,
      MemoryBackend.isLiveApproval a → MemoryBackend.isLiveApproval c →
      a.nodeId = c.nodeId → a.waitInstanceId = c.waitInstanceId → a = c) ∧
    w.decided.Nodup ∧
    ∀ c : ApprovalCall,
      (∀ a ∈ w.backend.approvalsOf r, MemoryBackend.isLiveApproval a →
        ∃ a' ∈ (w.afterCall r c).backend.approvalsOf r, a'.id = a.id) ∧
      (c.appends.isSome → (c.exec r w.backend).1 = false →
        (w.afterCall r c).backend.approvalsOf r = w.backend.approvalsOf r) ∧
      ∀ a ∈ w.backend.approvalsOf r, ∀ token, a.recoveryClaimId = some token → a.reconciliationPending = true →
        ¬ c.MayEndReservation a token →
        ∃ a' ∈ (w.afterCall r c).backend.approvalsOf r, a'.id = a.id ∧ a'.recoveryClaimId = some token ∧
          a'.recoveryClaimedAt = a.recoveryClaimedAt ∧ a'.reconciliationPending = true := by
  have h := run_exclusive hstart hrun
  refine ⟨?_, h.decidedOnce, fun c => ⟨?_, ?_, ?_⟩⟩
  · intro a ha c hc hla hlc hn hi
    exact List.inj_on_of_nodup_map h.distinct ha hc (h.oneLive a ha c hc hla hlc hn hi)
  · intro a ha hlive
    exact ApprovalsExclusive.live_kept c.move ha hlive
  · intro happends hfalse
    have hmove := c.move (b := w.backend) (r := r)
    rw [hfalse] at hmove
    show (c.exec r w.backend).2.approvalsOf r = _
    generalize (c.exec r w.backend).2.approvalsOf r = l' at hmove ⊢
    cases hmove with
    | refuse => rfl
    | release => simp [ApprovalCall.appends] at happends
    | finalize => simp [ApprovalCall.appends] at happends
  · intro a ha token htoken hpending hc
    exact h.reservation_kept c.move ha htoken hpending hc

/-- A decision that one recovery has reserved. -/
theorem approval_decisions_exclusive_reserved :
    let approval : PersistedPendingApproval := ⟨"a", "n", "ok?", "null", none, 0, none, .pending, none, none, none,
      none, some "i", none, false, none, none, none⟩
    let w := ((ApprovalWorld.mk {} [] []).afterCall "run" (.savePendingApprovalIfAbsent approval)).afterCall "run"
      (.updateApproval 1 "a" ⟨true, "ann", none, none⟩) |>.afterCall "run"
      (.reserveApprovalDecisionClaim "a" "t" 2 0)
    w.decided = ["a"] ∧ w.decided.Nodup := by
  refine ⟨by decide, (approval_decisions_exclusive (b := {}) rfl
    (.snoc (.snoc (.snoc .nil (.call _ ?_)) (.call _ ?_)) (.call _ ?_))).2.1⟩
  · rintro approval ⟨⟩
    exact ⟨by decide, rfl⟩
  · rintro approval ⟨⟩
  · rintro approval ⟨⟩

end Veryfront.Workflow
