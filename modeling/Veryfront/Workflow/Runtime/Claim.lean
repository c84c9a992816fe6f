import Veryfront.Workflow.Runtime.Calls
import Mathlib.Data.List.Nodup

/-!
# Claiming a run

A manager claims a run for a new execution: a pending run under its lock, a waiting run by its
status, a stalled running run through a hand-over to the manager. Whatever throws on the way goes
to `failClaim`, which fails the run under the fence of the phase the claim had reached. In the first
phase of a pending or waiting run there is no owner to fence by.
-/

namespace Veryfront.Workflow

open Veryfront.Lib Veryfront.Lib.Async

/-! ## The claim -/

inductive ClaimPhase
  | beforeExecutionOwner
  | assigningExecutionOwner (workerId : String)
  | executionOwnerAssigned (workerId : String)
deriving DecidableEq, Repr

structure WorkflowRunControlClaimInput where
  run : WorkflowRun
  managerId : String
  executionId : String
  stalledThreshold : Int
  executionTimeout : Int
  env : JsonText
  debug : Bool
  /-- What the backend implements. -/
  hasWorkerSupport : Bool := true
  hasLockSupport : Bool := true
  /-- The clock at the assignment, at a failure and at the return. -/
  now : Timestamp
  failedAt : Timestamp
  createdAt : Timestamp

inductive ClaimStatus
  | created | skippedLockHeld | skippedStatusChanged | skippedStalledClaimLost | failedBeforeClaim | failedAfterClaim
deriving DecidableEq, Repr

structure ClaimCreatedExecution where
  executionId : String
  runId : String
  createdAt : Timestamp
deriving DecidableEq, Repr

structure WorkflowRunControlClaimOutcome where
  status : ClaimStatus
  execution : Option ClaimCreatedExecution := none
  error : Option Thrown := none
deriving DecidableEq, Repr

abbrev Runtime (α : Type) := Async RuntimeCall RuntimeCall.Answer Thrown α

def executionWorker (executionId : String) : String := "run-execution:" ++ executionId

def managerWorker (managerId : String) : String := "mgr:" ++ managerId

def isActive (run : WorkflowRun) : Bool := ACTIVE_RECONCILE_STATUSES.contains run.status

section
variable (input : WorkflowRunControlClaimInput) (run : WorkflowRun)

def claimFailure (error : Thrown) : WorkflowRunUpdate where
  status := some .failed
  error := some (some ⟨"RUN_EXECUTION_CREATION_FAILED: Failed to create run execution: " ++ error.message, none, none, none⟩)
  completedAt := some (some input.failedAt)

/-- The end of a failure that no execution owner may have seen: fenced by the manager, if there is
a manager claim. -/
def failBeforeClaim (error : Thrown) (managerClaimWorkerId : Option String) : Runtime WorkflowRunControlClaimOutcome := do
  let _ ← call (.updateRunIfStatus run.id ACTIVE_RECONCILE_STATUSES (claimFailure input error) managerClaimWorkerId)
  return { status := .failedBeforeClaim, error := some error }

/-- A failure after the assignment was sent: first under the execution's own fence. -/
def failOwned (error : Thrown) (workerId : String) (managerClaimWorkerId : Option String)
    (unowned : Runtime WorkflowRunControlClaimOutcome) : Runtime WorkflowRunControlClaimOutcome := do
  let updated ← call (.updateRunIfStatus run.id ACTIVE_RECONCILE_STATUSES (claimFailure input error) (some workerId))
  if updated then
    return { status := .failedAfterClaim, error := some error }
  else
    let latest ← (call (RuntimeCall.getRun run.id) : Runtime (Option WorkflowRun))
    if latest.all fun latest =>
        !isActive latest || latest.workerId ≠ none && latest.workerId ≠ managerClaimWorkerId then
      return { status := .failedAfterClaim, error := some error }
    else unowned

def failClaim (error : Thrown) (managerClaimWorkerId : Option String) :
    ClaimPhase → Runtime WorkflowRunControlClaimOutcome
  | .beforeExecutionOwner => failBeforeClaim input run error managerClaimWorkerId
  | .assigningExecutionOwner workerId =>
    failOwned input run error workerId managerClaimWorkerId (failBeforeClaim input run error managerClaimWorkerId)
  | .executionOwnerAssigned workerId =>
    failOwned input run error workerId managerClaimWorkerId
      (pure { status := .failedAfterClaim, error := some error })

/-- `try` around one call of the claim: what it throws goes to `failClaim` with the phase and the
manager claim of that moment. -/
def orFail {c : RuntimeCall} (phase : ClaimPhase) (managerClaimWorkerId : Option String)
    (next : c.Answer → Runtime WorkflowRunControlClaimOutcome) : Except Thrown c.Answer → Runtime WorkflowRunControlClaimOutcome
  | .ok answer => next answer
  | .error error => failClaim input run error managerClaimWorkerId phase

def ownerAssignment : WorkflowRunUpdate where
  status := some .running
  startedAt := some (some input.now)
  heartbeatAt := some (some input.now)
  workerId := some (some (executionWorker input.executionId))

def assignExecutionOwner (managerClaimWorkerId : Option String) : Runtime WorkflowRunControlClaimOutcome :=
  let workerId := executionWorker input.executionId
  if !isActive run then return { status := .skippedStatusChanged }
  else match MemoryBackend.requireWorkflowSourceIntegrationPolicy run with
    | .error e => failClaim input run (.ofVeryfrontError e) managerClaimWorkerId .beforeExecutionOwner
    | .ok () => .await (.updateRunIfStatus input.run.id [run.status] (ownerAssignment input) managerClaimWorkerId) <|
      orFail input run (.assigningExecutionOwner workerId) managerClaimWorkerId fun claimed =>
        if !claimed then
          return { status := if input.run.status = .running then .skippedStalledClaimLost else .skippedStatusChanged }
        else .await (.createRunExecution
            ⟨input.executionId, run, input.managerId, input.executionTimeout, input.env, input.debug⟩) <|
          orFail input run (.executionOwnerAssigned workerId) managerClaimWorkerId fun _ =>
            return { status := .created, execution := some ⟨input.executionId, input.run.id, input.createdAt⟩ }

/-- `finally`: the lock is released whatever the body came to, and a throw of the release is only
logged. -/
def releasingPendingLock (pendingLockToken : String) (body : Runtime WorkflowRunControlClaimOutcome) :
    Runtime WorkflowRunControlClaimOutcome := do
  let outcome ← body.attempt
  let _ ← (call (.releaseLock input.run.id pendingLockToken)).attempt
  .settled outcome

def claimPending : Runtime WorkflowRunControlClaimOutcome :=
  .await (.acquireLock input.run.id input.stalledThreshold) <|
    orFail input input.run .beforeExecutionOwner none fun
      | none => return { status := .skippedLockHeld }
      | some token => releasingPendingLock input token <|
        .await (.getRun input.run.id) <| orFail input input.run .beforeExecutionOwner none fun
          | none => return { status := .skippedStatusChanged }
          | some latest =>
            if latest.status ≠ .pending then return { status := .skippedStatusChanged }
            else assignExecutionOwner input latest none

/-- The claim of a running run has the manager take it over first. -/
def claimStalled : Runtime WorkflowRunControlClaimOutcome :=
  let managerClaim := managerWorker input.managerId
  if !input.hasWorkerSupport then return { status := .skippedStalledClaimLost }
  else .await (.claimStalledRun input.run.id managerClaim input.stalledThreshold) <|
    orFail input input.run .beforeExecutionOwner (some managerClaim) fun stalledClaimed =>
      if !stalledClaimed then return { status := .skippedStalledClaimLost }
      else assignExecutionOwner input input.run (some managerClaim)

def claimWorkflowRunControl : Runtime WorkflowRunControlClaimOutcome :=
  if input.run.status = .running then claimStalled input
  else if input.run.status = .pending ∧ input.hasLockSupport then claimPending input
  else assignExecutionOwner input input.run none

end

/-! ## Calls of any managers, over one backend -/

/-- The backend, with what the calls did: the executions that an update of their own call made the
owner of a run, and the executions that were created. -/
structure ClaimState where
  backend : MemoryBackend
  owners : List (String × String) := []
  created : List (String × String) := []

def newOwner (e : String) : (c : RuntimeCall) → Option (Except Thrown c.Answer) → List (String × String)
  | .updateRunIfStatus runId _ patch _, some (.ok true) =>
    if patch.workerId = some (some (executionWorker e)) then [(e, runId)] else []
  | _, _ => []

def newExecution : RuntimeCall → List (String × String)
  | .createRunExecution config => [(config.executionId, config.run.id)]
  | _ => []

def OwnedActive (b : MemoryBackend) (runId worker : String) : Prop :=
  ∃ run, b.runs.get? runId = some run ∧ isActive run = true ∧ run.workerId = some worker

/-- Every run is stored under its own id. -/
def RunsKeyed (b : MemoryBackend) : Prop := ∀ runId run, b.runs.get? runId = some run → run.id = runId

/-- What happens beside the calls: an execution, a delivery or a cancellation updates an active run
and leaves its owner, or something other than a run is written. -/
inductive OwnerStep (b : MemoryBackend) : MemoryBackend → Prop
  | update (runId : String) (statuses : List WorkflowStatus) (patch : WorkflowRunUpdate) (worker : Option String) :
      statuses ⊆ ACTIVE_RECONCILE_STATUSES → patch.workerId = none →
      OwnerStep b (updateRunFenced b runId statuses patch worker).2
  | elsewhere {b' : MemoryBackend} : b'.runs = b.runs → OwnerStep b b'

section
variable (inputs : String → WorkflowRunControlClaimInput) (allowed : String → RuntimeCall → MemoryBackend → Prop)

structure ClaimEffect (e : String) (c : RuntimeCall) (s : ClaimState) (r : Except Thrown c.Answer)
    (s' : ClaimState) : Prop where
  allowed : allowed e c s.backend
  served : ∃ done, Served c s.backend done r s'.backend ∧ s'.owners = s.owners ++ newOwner e c done
  created : s'.created = s.created ++ newExecution c

/-- Any number of claims, each under its own execution id, with the steps that `allowed` admits. -/
def claims : System RuntimeCall RuntimeCall.Answer Thrown WorkflowRunControlClaimOutcome ClaimState String where
  starts e p := (inputs e).executionId = e ∧ p = claimWorkflowRunControl (inputs e)
  effect := ClaimEffect allowed
  environment s s' := s'.owners = s.owners ∧ s'.created = s.created ∧ OwnerStep s.backend s'.backend

end

def FailureMeetsNoOwner (e : String) : RuntimeCall → MemoryBackend → Prop
  | .updateRunIfStatus runId _ patch none, b =>
    patch.status = some .failed → ∀ e', OwnedActive b runId (executionWorker e') → e' = e
  | _, _ => True

/-- A step of call `e` leaves the status, the error and the owner of a run that another execution
owns, unless it makes the call the owner: its execution, or its manager in the hand-over of a
stalled run. -/
def SparesOwner (e managerId : String) (b b' : MemoryBackend) : Prop :=
  ∀ runId run e', b.runs.get? runId = some run → run.workerId = some (executionWorker e') → e' ≠ e →
    ∃ run', b'.runs.get? runId = some run' ∧
      (run'.workerId = some (executionWorker e) ∨ run'.workerId = some (managerWorker managerId) ∨
        run'.status = run.status ∧ run'.error = run.error ∧ run'.workerId = run.workerId)

/-! ## Workers -/

theorem executionWorker_inj {e e' : String} (h : executionWorker e = executionWorker e') : e = e' :=
  (String.append_right_inj _).mp h

theorem managerWorker_ne (m e : String) : managerWorker m ≠ executionWorker e := by
  intro h
  have := congrArg (fun s => s.toList.head?) h
  simp [managerWorker, executionWorker] at this

variable {b : MemoryBackend}

variable {b' : MemoryBackend}

theorem runs_set_get {r : String} {run' : WorkflowRun}
    (h : b'.runs = b.runs.set r run') (k : String) :
    b'.runs.get? k = if k = r then some run' else b.runs.get? k := by
  rw [h, OrdMap.get?_set]

theorem ownedActive_congr (h : b'.runs = b.runs) {k worker : String} :
    OwnedActive b' k worker ↔ OwnedActive b k worker := by
  unfold OwnedActive
  rw [h]

variable {worker : Option String}

theorem isActive_of_matches {statuses : List WorkflowStatus} {run : WorkflowRun}
    (hs : statuses ⊆ ACTIVE_RECONCILE_STATUSES) (h : MemoryBackend.matchesStatusAndWorker statuses worker run = true) :
    isActive run = true := by
  simp only [MemoryBackend.matchesStatusAndWorker, Bool.and_eq_true, List.contains_iff_mem] at h
  exact List.contains_iff_mem.mpr (hs h.1)

theorem worker_of_matches {statuses : List WorkflowStatus} {worker : String} {run : WorkflowRun}
    (h : MemoryBackend.matchesStatusAndWorker statuses (some worker) run = true) : run.workerId = some worker := by
  simp only [MemoryBackend.matchesStatusAndWorker, Bool.and_eq_true, Bool.or_eq_true, decide_eq_true_eq] at h
  exact h.2.resolve_left nofun

/-! ## What a call of the claim does to the run records -/

/-- Every write of call `e` makes its execution or its manager the owner, or it ends a run that no
other execution owns. -/
inductive ClaimMove (e managerId : String) (b b' : MemoryBackend) : Prop
  | same : b'.runs = b.runs → ClaimMove e managerId b b'
  | wrote (r : String) (run run' : WorkflowRun) : b.runs.get? r = some run → b'.runs = b.runs.set r run' →
      run'.id = run.id →
      (run'.workerId = some (executionWorker e) ∨ run'.workerId = some (managerWorker managerId) ∨
        run'.workerId = run.workerId ∧ isActive run' = false ∧
          ∀ e', run.workerId = some (executionWorker e') → e' = e) → ClaimMove e managerId b b'

section
variable {e managerId : String} {b b' : MemoryBackend}

theorem ClaimMove.keyed (h : ClaimMove e managerId b b') (hb : RunsKeyed b) : RunsKeyed b' := by
  cases h with
  | same h => unfold RunsKeyed; rw [h]; exact hb
  | wrote r run run' hrun h hid _ =>
    intro k x hx
    rw [runs_set_get h] at hx
    split at hx
    · rename_i hk
      cases hx
      rw [hid, hk]
      exact hb r run hrun
    · exact hb k x hx

theorem ClaimMove.spares (h : ClaimMove e managerId b b') : SparesOwner e managerId b b' := by
  intro k x e' hx hw hne
  cases h with
  | same h => exact ⟨x, by rw [h, hx], .inr (.inr ⟨rfl, rfl, rfl⟩)⟩
  | wrote r run run' hrun h _ hwrote =>
    rw [runs_set_get h]
    by_cases hk : k = r
    · rw [if_pos hk]
      rw [hk, hrun, Option.some.injEq] at hx
      subst hx
      obtain h | h | ⟨-, -, h⟩ := hwrote
      · exact ⟨run', rfl, .inl h⟩
      · exact ⟨run', rfl, .inr (.inl h)⟩
      · exact absurd (h e' hw) hne
    · rw [if_neg hk]
      exact ⟨x, hx, .inr (.inr ⟨rfl, rfl, rfl⟩)⟩

theorem ClaimMove.gains (h : ClaimMove e managerId b b') {k e' : String} (hne : e' ≠ e)
    (ho : OwnedActive b' k (executionWorker e')) : OwnedActive b k (executionWorker e') := by
  cases h with
  | same h => exact (ownedActive_congr h).mp ho
  | wrote r run run' hrun h _ hwrote =>
    obtain ⟨x, hx, ha, hw⟩ := ho
    rw [runs_set_get h] at hx
    split at hx
    · cases hx
      obtain h | h | ⟨-, h, -⟩ := hwrote
      · exact absurd (executionWorker_inj (Option.some.inj (hw.symm.trans h))) hne
      · exact absurd (Option.some.inj (h.symm.trans hw)) (managerWorker_ne _ _)
      · rw [h] at ha
        cases ha
    · exact ⟨x, hx, ha, hw⟩

end

/-! ## The contract of one call -/

section
variable (inputs : String → WorkflowRunControlClaimInput) (e : String)

/-- What a step of call `e` owes to the others. -/
structure ClaimGuarantee (s s' : ClaimState) : Prop where
  move : ClaimMove e (inputs e).managerId s.backend s'.backend
  owners : s'.owners = s.owners ∨ ∃ r, s'.owners = s.owners ++ [(e, r)] ∧ ∀ r', (e, r') ∉ s.owners
  created : s'.created = s.created ∨
    ∃ r, s'.created = s.created ++ [(e, r)] ∧ (e, r) ∈ s.owners ∧ ∀ r', (e, r') ∉ s.created

/-- What call `e` can count on while it awaits. -/
structure ClaimRely (s s' : ClaimState) : Prop where
  owners : ∀ r, (e, r) ∈ s'.owners ↔ (e, r) ∈ s.owners
  created : ∀ r, (e, r) ∈ s'.created ↔ (e, r) ∈ s.created
  gains : ∀ r, OwnedActive s'.backend r (executionWorker e) → OwnedActive s.backend r (executionWorker e)

end

structure ClaimInvariant (s : ClaimState) : Prop where
  keyed : RunsKeyed s.backend
  created_owned : ∀ x ∈ s.created, x ∈ s.owners
  owners_once : (s.owners.map Prod.fst).Nodup
  created_once : (s.created.map Prod.fst).Nodup

theorem nodup_append_new {l : List (String × String)} {e r : String} (h : (l.map Prod.fst).Nodup)
    (hnew : ∀ r', (e, r') ∉ l) : ((l ++ [(e, r)]).map Prod.fst).Nodup := by
  rw [List.map_append, List.nodup_append]
  refine ⟨h, by simp, ?_⟩
  intro x hx y hy hxy
  simp only [List.map_cons, List.map_nil, List.mem_singleton] at hy
  obtain ⟨⟨a, r'⟩, ha, rfl⟩ := List.mem_map.mp hx
  exact hnew r' (by rw [← hy, ← hxy]; exact ha)

variable {inputs : String → WorkflowRunControlClaimInput}

theorem ClaimGuarantee.invariant {e : String} {s s' : ClaimState}
    (h : ClaimGuarantee inputs e s s') (hs : ClaimInvariant s) : ClaimInvariant s' := by
  have hsub : ∀ x ∈ s.owners, x ∈ s'.owners := by
    intro x hx
    obtain h | ⟨r, h, -⟩ := h.owners
    · rwa [h]
    · rw [h]; exact List.mem_append_left _ hx
  refine ⟨h.move.keyed hs.keyed, ?_, ?_, ?_⟩
  · intro x hx
    obtain h | ⟨r, h, ho, -⟩ := h.created
    · exact hsub x (hs.created_owned x (h ▸ hx))
    · rw [h, List.mem_append, List.mem_singleton] at hx
      obtain hx | rfl := hx
      · exact hsub x (hs.created_owned x hx)
      · exact hsub _ ho
  · obtain h | ⟨r, h, hnew⟩ := h.owners
    · rw [h]; exact hs.owners_once
    · rw [h]; exact nodup_append_new hs.owners_once hnew
  · obtain h | ⟨r, h, -, hnew⟩ := h.created
    · rw [h]; exact hs.created_once
    · rw [h]; exact nodup_append_new hs.created_once hnew

theorem ClaimGuarantee.rely {e u : String} {s s' : ClaimState}
    (h : ClaimGuarantee inputs u s s') (hne : e ≠ u) : ClaimRely e s s' := by
  have hother (l : List (String × String)) (r r' : String) : (e, r) ∈ l ++ [(u, r')] ↔ (e, r) ∈ l := by
    simp [hne]
  refine ⟨fun r => ?_, fun r => ?_, fun r => h.move.gains hne⟩
  · obtain h | ⟨r', h, -⟩ := h.owners
    · rw [h]
    · rw [h, hother]
  · obtain h | ⟨r', h, -⟩ := h.created
    · rw [h]
    · rw [h, hother]

theorem OwnerStep.cases (h : OwnerStep b b') : b'.runs = b.runs ∨
    ∃ r run run', b.runs.get? r = some run ∧ b'.runs = b.runs.set r run' ∧ run'.id = run.id ∧
      run'.workerId = run.workerId ∧ isActive run = true := by
  cases h with
  | elsewhere h => exact .inl h
  | update r statuses patch worker hs hw =>
    rw [updateRunFenced_eq]
    obtain ⟨run, hrun, hm, h⟩ | ⟨run, hrun, hm, h⟩ | ⟨e, h⟩ := updateRunConditionally_cases b r patch
      (MemoryBackend.matchesStatusAndWorker statuses worker)
    all_goals rw [h]
    · refine .inr ⟨r, run, _, hrun, runs_storeRunUpdate .., rfl, ?_, isActive_of_matches hs hm⟩
      show patch.workerId.getD run.workerId = run.workerId
      rw [hw]
      rfl
    · exact .inl rfl
    · exact .inl rfl

theorem OwnerStep.keyed (h : OwnerStep b b') (hb : RunsKeyed b) : RunsKeyed b' := by
  obtain h | ⟨r, run, run', hrun, h, hid, -, -⟩ := h.cases
  · unfold RunsKeyed; rw [h]; exact hb
  · intro k x hx
    rw [runs_set_get h] at hx
    split at hx
    · rename_i hk
      cases hx
      rw [hid, hk]
      exact hb r run hrun
    · exact hb k x hx

theorem OwnerStep.gains (h : OwnerStep b b') {k worker : String}
    (ho : OwnedActive b' k worker) : OwnedActive b k worker := by
  obtain ⟨x, hx, ha, hw⟩ := ho
  obtain h | ⟨r, run, run', hrun, h, -, hsame, hact⟩ := h.cases
  · exact ⟨x, h ▸ hx, ha, hw⟩
  · rw [runs_set_get h] at hx
    split at hx
    · rename_i hk
      cases hx
      exact ⟨run, hk ▸ hrun, hact, hsame ▸ hw⟩
    · exact ⟨x, hx, ha, hw⟩

/-- The calls together, each with its contract. -/
def claimContracts (inputs : String → WorkflowRunControlClaimInput) :
    (claims inputs FailureMeetsNoOwner).Contracts where
  rely := ClaimRely
  guarantee := ClaimGuarantee inputs
  result e r s := ∀ outcome, r = .ok outcome → outcome.status = .failedAfterClaim →
    ¬ OwnedActive s.backend (inputs e).run.id (executionWorker e)
  invariant := ClaimInvariant
  idle e s := ∀ r, (e, r) ∉ s.owners ∧ (e, r) ∉ s.created
  rely_refl e s := ⟨fun _ => .rfl, fun _ => .rfl, fun _ => id⟩
  rely_trans e _ _ _ h h' := ⟨fun r => (h'.owners r).trans (h.owners r), fun r => (h'.created r).trans (h.created r),
    fun r => h.gains r ∘ h'.gains r⟩
  rely_guarantee hne _ h := h.rely hne
  rely_environment := fun _ ⟨ho, hc, h⟩ => ⟨fun r => by rw [ho], fun r => by rw [hc], fun r => h.gains⟩
  invariant_guarantee hs h := h.invariant hs
  invariant_environment := fun hs ⟨ho, hc, h⟩ =>
    ⟨h.keyed hs.keyed, by rw [ho, hc]; exact hs.created_owned, by rw [ho]; exact hs.owners_once,
      by rw [hc]; exact hs.created_once⟩
  idle_rely h hr := fun r => ⟨fun h' => (h r).1 ((hr.owners r).mp h'), fun h' => (h r).2 ((hr.created r).mp h')⟩

/-! ## What every step of a call does -/

section
variable {inputs : String → WorkflowRunControlClaimInput} {e : String}

theorem newOwner_of_keeps {c : RuntimeCall} (hc : c.KeepsRuns) (done : Option (Except Thrown c.Answer)) :
    newOwner e c done = [] := by
  cases c with
  | updateRunIfStatus => exact hc.elim
  | claimStalledRun => exact hc.elim
  | _ => rfl

section
variable {runId : String} {statuses : List WorkflowStatus} {patch : WorkflowRunUpdate} {worker : Option String}
  {done : Option (Except Thrown Bool)}

theorem newOwner_of_ownerless (hp : patch.workerId = none) :
    newOwner e (.updateRunIfStatus runId statuses patch worker) done = [] := by
  cases done with
  | none => rfl
  | some r =>
    cases r with
    | error => rfl
    | ok applied => cases applied <;> simp [newOwner, hp]

theorem newOwner_of_unapplied (h : done ≠ some (.ok true)) :
    newOwner e (.updateRunIfStatus runId statuses patch worker) done = [] := by
  cases done with
  | none => rfl
  | some r =>
    cases r with
    | error => rfl
    | ok applied =>
      cases applied with
      | true => exact absurd rfl h
      | false => rfl

end

variable {s s' : ClaimState}

theorem keeps_guarantee {c : RuntimeCall} {r : Except Thrown c.Answer} (hc : c.KeepsRuns) (hnew : newExecution c = [])
    (h : ClaimEffect FailureMeetsNoOwner e c s r s') :
    ClaimGuarantee inputs e s s' ∧ s'.owners = s.owners ∧ s'.created = s.created ∧
      s'.backend.runs = s.backend.runs := by
  obtain ⟨done, hd, ho⟩ := h.served
  have hruns := served_runs hc hd
  have hcr := h.created
  rw [newOwner_of_keeps hc, List.append_nil] at ho
  rw [hnew, List.append_nil] at hcr
  exact ⟨⟨.same hruns, .inl ho, .inl hcr⟩, ho, hcr, hruns⟩

variable {runId : String} {r : Except Thrown Bool}

theorem failure_guarantee {error : Thrown}
    (hw : ∀ w, worker = some w → w = executionWorker e ∨ w = managerWorker (inputs e).managerId)
    (h : ClaimEffect FailureMeetsNoOwner e
      (.updateRunIfStatus runId ACTIVE_RECONCILE_STATUSES (claimFailure (inputs e) error) worker) s r s') :
    ClaimGuarantee inputs e s s' := by
  obtain ⟨done, hd, ho⟩ := h.served
  have hcr := h.created
  rw [newOwner_of_ownerless rfl, List.append_nil] at ho
  rw [show newExecution _ = [] from rfl, List.append_nil] at hcr
  refine ⟨?_, .inl ho, .inl hcr⟩
  generalize hb : s'.backend = b' at hd
  cases update_served hd with
  | applied run r hrun hm _ =>
    refine .wrote runId run _ hrun (runs_storeRunUpdate ..) rfl (.inr (.inr ⟨rfl, rfl, ?_⟩))
    intro e' he'
    cases worker with
    | none =>
      exact h.allowed rfl e' ⟨run, hrun, isActive_of_matches (List.Subset.refl _) hm, he'⟩
    | some w =>
      have hw' := worker_of_matches hm
      obtain rfl | rfl := hw w rfl
      · exact executionWorker_inj (Option.some.inj (he'.symm.trans hw'))
      · exact absurd (Option.some.inj (hw'.symm.trans he')) (managerWorker_ne _ _)
  | unmatched => exact .same rfl
  | failed => exact .same rfl

theorem failure_releases {error : Thrown} {answer : Bool}
    (h : ClaimEffect FailureMeetsNoOwner e (.updateRunIfStatus runId ACTIVE_RECONCILE_STATUSES
      (claimFailure (inputs e) error) (some (executionWorker e))) s (.ok answer) s') :
    ¬ OwnedActive s'.backend runId (executionWorker e) := by
  obtain ⟨done, hd, -⟩ := h.served
  generalize hr : (Except.ok answer : Except Thrown Bool) = r at hd
  generalize hb : s'.backend = b' at hd
  rintro ⟨x, hx, ha, hw⟩
  cases update_served hd with
  | applied run r hrun hm _ =>
    rw [runs_storeRunUpdate, OrdMap.get?_set, if_pos rfl, Option.some.injEq] at hx
    subst hx
    cases ha
  | unmatched run hrun hm =>
    rw [hrun, Option.some.injEq] at hx
    subst hx
    rw [MemoryBackend.matchesStatusAndWorker, show ACTIVE_RECONCILE_STATUSES.contains run.status = true from ha, hw] at hm
    simp at hm
  | failed => cases hr

theorem assignment_guarantee {status : WorkflowStatus} (hid : (inputs e).executionId = e) (hnew : ∀ r', (e, r') ∉ s.owners)
    (h : ClaimEffect FailureMeetsNoOwner e
      (.updateRunIfStatus runId [status] (ownerAssignment (inputs e)) worker) s r s') :
    ClaimGuarantee inputs e s s' ∧ s'.created = s.created ∧ (r = .ok true → (e, runId) ∈ s'.owners) := by
  obtain ⟨done, hd, ho⟩ := h.served
  have hcr := h.created
  rw [show newExecution _ = [] from rfl, List.append_nil] at hcr
  generalize hb : s'.backend = b' at hd
  cases update_served hd with
  | applied run r hrun hm _ =>
    have ho : s'.owners = s.owners ++ [(e, runId)] := by
      rw [ho, newOwner, if_pos]
      rw [ownerAssignment, hid]
    refine ⟨⟨?_, .inr ⟨runId, ho, hnew⟩, .inl hcr⟩, hcr, fun _ => by rw [ho]; simp⟩
    rw [hb]
    refine .wrote runId run _ hrun (runs_storeRunUpdate ..) rfl (.inl ?_)
    show some (executionWorker (inputs e).executionId) = _
    rw [hid]
  | unmatched =>
    exact ⟨⟨.same (by rw [hb]), .inl (by rw [ho]; exact List.append_nil _), .inl hcr⟩, hcr, nofun⟩
  | failed done err hdone =>
    rw [newOwner_of_unapplied hdone, List.append_nil] at ho
    exact ⟨⟨.same (by rw [hb]), .inl ho, .inl hcr⟩, hcr, nofun⟩

theorem stalled_guarantee {threshold : Int}
    (h : ClaimEffect FailureMeetsNoOwner e
      (.claimStalledRun runId (managerWorker (inputs e).managerId) threshold) s r s') :
    ClaimGuarantee inputs e s s' ∧ s'.owners = s.owners ∧ s'.created = s.created := by
  obtain ⟨done, hd, ho⟩ := h.served
  have hcr := h.created
  rw [show newOwner _ _ _ = [] from rfl, List.append_nil] at ho
  rw [show newExecution _ = [] from rfl, List.append_nil] at hcr
  refine ⟨⟨?_, .inl ho, .inl hcr⟩, ho, hcr⟩
  generalize hb : s'.backend = b' at hd
  cases stalled_served hd with
  | claimed run claimed hrun _ _ _ hrid _ hworker hruns =>
    exact .wrote runId run claimed hrun hruns hrid (.inr (.inl hworker))
  | unclaimed => exact .same rfl

end

/-! ## The claim meets its contract -/

section
variable {inputs : String → WorkflowRunControlClaimInput} {e : String} {s : ClaimState}

/-- Nothing was assigned or created for the call. -/
abbrev Unclaimed (e : String) (s : ClaimState) : Prop := ∀ r, (e, r) ∉ s.owners ∧ (e, r) ∉ s.created

theorem unclaimed_stable : Stable ((claimContracts inputs).contract e) (Unclaimed e) :=
  fun _ _ h hr => (claimContracts inputs).idle_rely h hr.1

theorem result_stable (r : Except Thrown WorkflowRunControlClaimOutcome) :
    Stable ((claimContracts inputs).contract e) ((claimContracts inputs).result e r) :=
  fun _ _ h hr outcome ho hs hown => h outcome ho hs (hr.1.gains _ hown)

theorem released_stable (k : String) : Stable ((claimContracts inputs).contract e)
    fun s => ¬ OwnedActive s.backend k (executionWorker e) :=
  fun _ _ h hr hown => h (hr.1.gains _ hown)

variable {r : Except Thrown WorkflowRunControlClaimOutcome}

theorem meets_settled
    (h : ∀ outcome, r = .ok outcome → outcome.status ≠ .failedAfterClaim) :
    (claimContracts inputs).Meets e (.settled r) s :=
  fun _ _ outcome ho hs => absurd hs (h outcome ho)

theorem meets_released
    (h : ¬ OwnedActive s.backend (inputs e).run.id (executionWorker e)) :
    (claimContracts inputs).Meets e (.settled r) s :=
  Safe.settled _ (released_stable _) h fun _ h _ _ _ => h

variable {run : WorkflowRun} {error : Thrown} {managerClaim : Option String}

theorem meets_failBeforeClaim (hm : ∀ w, managerClaim = some w → w = managerWorker (inputs e).managerId) :
    (claimContracts inputs).Meets e (failBeforeClaim (inputs e) run error managerClaim) s := by
  refine Safe.await (fun _ => True) (fun _ _ _ _ => trivial) trivial ?_
  rintro t r t' - ⟨-, h⟩
  refine ⟨failure_guarantee (fun w hw => .inr (hm w hw)) h, ?_⟩
  cases r with
  | error => exact meets_settled nofun
  | ok => exact meets_settled fun _ h => by cases h; nofun

theorem meets_failOwned {unowned : Runtime WorkflowRunControlClaimOutcome} (hid : run.id = (inputs e).run.id)
    (hun : ∀ s, ¬ OwnedActive s.backend (inputs e).run.id (executionWorker e) →
      (claimContracts inputs).Meets e unowned s) :
    (claimContracts inputs).Meets e
      (failOwned (inputs e) run error (executionWorker e) managerClaim unowned) s := by
  refine Safe.await (fun _ => True) (fun _ _ _ _ => trivial) trivial ?_
  rintro t r t' - ⟨-, h⟩
  refine ⟨failure_guarantee (fun w hw => .inl (Option.some.inj hw).symm) h, ?_⟩
  cases r with
  | error => exact meets_settled nofun
  | ok updated =>
    have hrel := failure_releases h
    rw [hid] at hrel
    cases updated with
    | true => exact meets_released hrel
    | false =>
      refine Safe.await _ (released_stable _) hrel ?_
      rintro u r u' hrel ⟨-, h⟩
      obtain ⟨hg, -, -, hruns⟩ := keeps_guarantee (c := .getRun run.id) trivial rfl h
      refine ⟨hg, ?_⟩
      rw [← ownedActive_congr hruns] at hrel
      cases r with
      | error => exact meets_settled nofun
      | ok latest =>
        show (claimContracts inputs).Meets e (if _ then _ else _) u'
        split
        · exact meets_released hrel
        · exact hun u' hrel

theorem meets_failClaim {phase : ClaimPhase} (hid : run.id = (inputs e).run.id)
    (hm : ∀ w, managerClaim = some w → w = managerWorker (inputs e).managerId)
    (hp : ∀ w, phase = .assigningExecutionOwner w ∨ phase = .executionOwnerAssigned w → w = executionWorker e) :
    (claimContracts inputs).Meets e (failClaim (inputs e) run error managerClaim phase) s := by
  cases phase with
  | beforeExecutionOwner => exact meets_failBeforeClaim hm
  | assigningExecutionOwner w =>
    obtain rfl := hp w (.inl rfl)
    exact meets_failOwned hid fun _ _ => meets_failBeforeClaim hm
  | executionOwnerAssigned w =>
    obtain rfl := hp w (.inr rfl)
    exact meets_failOwned hid fun _ hrel => meets_released hrel

theorem meets_orFail {c : RuntimeCall} {phase : ClaimPhase} {next : c.Answer → Runtime WorkflowRunControlClaimOutcome}
    {r : Except Thrown c.Answer} (hid : run.id = (inputs e).run.id)
    (hm : ∀ w, managerClaim = some w → w = managerWorker (inputs e).managerId)
    (hp : ∀ w, phase = .assigningExecutionOwner w ∨ phase = .executionOwnerAssigned w → w = executionWorker e)
    (hnext : ∀ answer, r = .ok answer → (claimContracts inputs).Meets e (next answer) s) :
    (claimContracts inputs).Meets e (orFail (inputs e) run phase managerClaim next r) s := by
  cases r with
  | error error => exact meets_failClaim hid hm hp
  | ok answer => exact hnext answer rfl

theorem meets_assignExecutionOwner (he : (inputs e).executionId = e) (hid : run.id = (inputs e).run.id)
    (hm : ∀ w, managerClaim = some w → w = managerWorker (inputs e).managerId) (hs : Unclaimed e s) :
    (claimContracts inputs).Meets e (assignExecutionOwner (inputs e) run managerClaim) s := by
  unfold assignExecutionOwner
  simp only
  split
  · exact meets_settled fun _ h => by cases h; nofun
  split
  · exact meets_failClaim hid hm nofun
  refine Safe.await _ unclaimed_stable hs ?_
  rintro t r t' ht ⟨-, h⟩
  obtain ⟨hg, hcr, howned⟩ := assignment_guarantee he (fun r' => (ht r').1) h
  refine ⟨hg, meets_orFail hid hm (fun w hw => ?_) ?_⟩
  · cases hw with
    | inl hw => rw [← ClaimPhase.assigningExecutionOwner.inj hw, he]
    | inr hw => cases hw
  rintro claimed rfl
  cases claimed with
  | false =>
    refine meets_settled fun outcome ho => ?_
    cases ho
    show (if _ then ClaimStatus.skippedStalledClaimLost else _) ≠ _
    split <;> nofun
  | true =>
    refine Safe.await (fun s => (e, (inputs e).run.id) ∈ s.owners ∧ ∀ r', (e, r') ∉ s.created) ?_
      ⟨howned rfl, fun r' => by rw [hcr]; exact (ht r').2⟩ ?_
    · intro u u' hu hr
      exact ⟨(hr.1.owners _).mpr hu.1, fun r' h' => hu.2 r' ((hr.1.created r').mp h')⟩
    rintro u r u' ⟨howned, hnew⟩ ⟨-, h⟩
    obtain ⟨done, hd, ho⟩ := h.served
    have hcreated := h.created
    rw [show newOwner _ _ _ = [] from rfl, List.append_nil] at ho
    rw [newExecution, he, hid] at hcreated
    refine ⟨⟨.same (served_runs (c := .createRunExecution _) trivial hd), .inl ho, .inr ⟨_, hcreated, howned, hnew⟩⟩,
      meets_orFail hid hm (fun w hw => ?_) ?_⟩
    · cases hw with
      | inl hw => cases hw
      | inr hw => rw [← ClaimPhase.executionOwnerAssigned.inj hw, he]
    · exact fun _ _ => meets_settled fun _ h => by cases h; nofun

theorem meets_releasingPendingLock {token : String} {body : Runtime WorkflowRunControlClaimOutcome}
    (h : (claimContracts inputs).Meets e body s) :
    (claimContracts inputs).Meets e (releasingPendingLock (inputs e) token body) s := by
  refine Safe.bind (Safe.attempt (Safe.mono ?_ h))
  intro outcome t ht
  refine Safe.await _ (result_stable outcome) ht ?_
  rintro u r u' hu ⟨-, h⟩
  obtain ⟨hg, -, -, hruns⟩ := keeps_guarantee (c := .releaseLock _ _) trivial rfl h
  refine ⟨hg, ?_⟩
  have hu' : (claimContracts inputs).result e outcome u' :=
    fun out ho hs hown => hu out ho hs ((ownedActive_congr hruns).mp hown)
  exact Safe.settled _ (result_stable outcome) hu' fun _ => id

theorem meets_claimPending (he : (inputs e).executionId = e) (hs : Unclaimed e s) :
    (claimContracts inputs).Meets e (claimPending (inputs e)) s := by
  refine Safe.await _ unclaimed_stable hs ?_
  rintro t r t' ht ⟨-, h⟩
  obtain ⟨hg, ho, hc, -⟩ := keeps_guarantee (c := .acquireLock _ _) trivial rfl h
  refine ⟨hg, meets_orFail rfl nofun nofun fun token _ => ?_⟩
  cases token with
  | none => exact meets_settled fun _ h => by cases h; nofun
  | some token =>
    refine meets_releasingPendingLock (Safe.await _ unclaimed_stable (s := t') (by rw [Unclaimed, ho, hc]; exact ht) ?_)
    rintro u r u' hu ⟨hinv, h⟩
    obtain ⟨hg, ho, hc, -⟩ := keeps_guarantee (c := .getRun _) trivial rfl h
    refine ⟨hg, meets_orFail rfl nofun nofun ?_⟩
    rintro latest rfl
    cases latest with
    | none => exact meets_settled fun _ h => by cases h; nofun
    | some latest =>
      obtain ⟨done, hd, -⟩ := h.served
      have hid := hinv.keyed _ _ (getRun_served hd).symm
      show (claimContracts inputs).Meets e (if _ then _ else _) u'
      split
      · exact meets_settled fun _ h => by cases h; nofun
      · exact meets_assignExecutionOwner he hid nofun (by rw [Unclaimed, ho, hc]; exact hu)

theorem meets_claimStalled (he : (inputs e).executionId = e) (hs : Unclaimed e s) :
    (claimContracts inputs).Meets e (claimStalled (inputs e)) s := by
  have hm : ∀ w, some (managerWorker (inputs e).managerId) = some w → w = managerWorker (inputs e).managerId :=
    fun w hw => (Option.some.inj hw).symm
  unfold claimStalled
  simp only
  split
  · exact meets_settled fun _ h => by cases h; nofun
  refine Safe.await _ unclaimed_stable hs ?_
  rintro t r t' ht ⟨-, h⟩
  obtain ⟨hg, ho, hc⟩ := stalled_guarantee h
  refine ⟨hg, meets_orFail rfl hm nofun fun claimed _ => ?_⟩
  cases claimed with
  | false => exact meets_settled fun _ h => by cases h; nofun
  | true => exact meets_assignExecutionOwner he rfl hm (by rw [Unclaimed, ho, hc]; exact ht)

theorem meets_claimWorkflowRunControl (he : (inputs e).executionId = e) (hs : Unclaimed e s) :
    (claimContracts inputs).Meets e (claimWorkflowRunControl (inputs e)) s := by
  unfold claimWorkflowRunControl
  split
  · exact meets_claimStalled he hs
  split
  · exact meets_claimPending he hs
  · exact meets_assignExecutionOwner he rfl nofun hs

end

/-! ## Losing claims -/

/-- No call was made yet. -/
def claimWorld (b : MemoryBackend) :
    World RuntimeCall RuntimeCall.Answer Thrown WorkflowRunControlClaimOutcome ClaimState String :=
  ⟨{ backend := b }, fun _ => none⟩

structure LosersHarmless (inputs : String → WorkflowRunControlClaimInput)
    (allowed : String → RuntimeCall → MemoryBackend → Prop)
    (w : World RuntimeCall RuntimeCall.Answer Thrown WorkflowRunControlClaimOutcome ClaimState String) : Prop where
  created_owned : ∀ x ∈ w.shared.created, x ∈ w.shared.owners
  owners_once : (w.shared.owners.map Prod.fst).Nodup
  created_once : (w.shared.created.map Prod.fst).Nodup
  spares : ∀ e w', (claims inputs allowed).Step w (.awaits e) w' →
    SparesOwner e (inputs e).managerId w.shared.backend w'.shared.backend
  released : ∀ e outcome, w.running e = some (.settled (.ok outcome)) → outcome.status = .failedAfterClaim →
    ¬ OwnedActive w.shared.backend (inputs e).run.id (executionWorker e)

theorem claimWorld_holds (hb : RunsKeyed b) :
    (claimContracts inputs).Holds (claimWorld b) where
  invariant := ⟨hb, nofun, List.nodup_nil, List.nodup_nil⟩
  meets := nofun
  idle _ _ _ := ⟨List.not_mem_nil, List.not_mem_nil⟩

/-- In every run in which no failure without a fence meets a run of another execution, a
losing claim is harmless. -/
theorem losing_claims_harmless (inputs : String → WorkflowRunControlClaimInput) (b : MemoryBackend)
    (hb : RunsKeyed b) {steps : List (Actor String)}
    {w : World RuntimeCall RuntimeCall.Answer Thrown WorkflowRunControlClaimOutcome ClaimState String}
    (h : Run (claims inputs FailureMeetsNoOwner).Step (claimWorld b) steps w) :
    LosersHarmless inputs FailureMeetsNoOwner w := by
  have hw := (claimContracts inputs).holds_run (fun e p s hp _ hs => hp.2 ▸ meets_claimWorkflowRunControl hp.1 hs)
    (claimWorld_holds hb) h
  refine ⟨hw.invariant.created_owned, hw.invariant.owners_once, hw.invariant.created_once, ?_, ?_⟩
  · intro e w' hstep
    exact ((claimContracts inputs).guarantee_of_awaits hw hstep).move.spares
  · intro e outcome hsettled
    exact (claimContracts inputs).result_of_settled hw hsettled outcome rfl

/-! ## A failure that meets an owner

Two managers claim the same pending run. While the first waits for the lock, the second takes it
and becomes the owner. Then the lock call of the first throws. -/

def contendedRun : WorkflowRun where
  id := "r"
  workflowId := "w"
  status := .pending
  input := "{}"
  nodeStates := .empty
  currentNodes := []
  context := .empty
  createdAt := 0
  sourceIntegrationPolicy := some "{}"

def contendedInputs (e : String) : WorkflowRunControlClaimInput where
  run := contendedRun
  managerId := e
  executionId := e
  stalledThreshold := 1000
  executionTimeout := 1000
  env := "{}"
  debug := false
  now := 0
  failedAt := 0
  createdAt := 0

def contendedBackend : MemoryBackend := { runs := .set .empty "r" contendedRun }

def answeredCall (e : String) (c : RuntimeCall) (s : ClaimState) : Except Thrown c.Answer × ClaimState :=
  let done := perform ⟨0, "id"⟩ s.backend c
  (done.1, ⟨done.2, s.owners ++ newOwner e c (some done.1), s.created ++ newExecution c⟩)

def refusedCall (e : String) (c : RuntimeCall) (s : ClaimState) : Except Thrown c.Answer × ClaimState :=
  (.error ⟨"connection lost", true⟩, ⟨s.backend, s.owners ++ newOwner e c none, s.created ++ newExecution c⟩)

abbrev ClaimStep := Move RuntimeCall RuntimeCall.Answer Thrown WorkflowRunControlClaimOutcome ClaimState String

def lostLockRun : List ClaimStep :=
  [.start "a" (claimWorkflowRunControl (contendedInputs "a")),
   .start "b" (claimWorkflowRunControl (contendedInputs "b")),
   .serve "b" (answeredCall "b"), .serve "b" (answeredCall "b"), .serve "b" (answeredCall "b"),
   .serve "a" (refusedCall "a")]

theorem answeredCall_admitted (e : String) :
    Move.Admitted (claims contendedInputs fun _ _ _ => True) (.serve e (answeredCall e)) :=
  fun _ _ => ⟨trivial, ⟨_, .answered _, rfl⟩, rfl⟩

theorem refusedCall_admitted (e : String) :
    Move.Admitted (claims contendedInputs fun _ _ _ => True) (.serve e (refusedCall e)) :=
  fun _ _ => ⟨trivial, ⟨_, .refused _, rfl⟩, rfl⟩

theorem lostLockRun_admitted : ∀ m ∈ lostLockRun, m.Admitted (claims contendedInputs fun _ _ _ => True) := by
  intro m hm
  simp only [lostLockRun, List.mem_cons, List.not_mem_nil, or_false] at hm
  obtain rfl | rfl | rfl | rfl | rfl | rfl := hm
  · exact ⟨rfl, rfl⟩
  · exact ⟨rfl, rfl⟩
  · exact answeredCall_admitted "b"
  · exact answeredCall_admitted "b"
  · exact answeredCall_admitted "b"
  · exact refusedCall_admitted "a"

theorem contendedBackend_keyed : RunsKeyed contendedBackend := by
  intro k run hrun
  rw [contendedBackend, OrdMap.get?_set] at hrun
  split at hrun
  · cases hrun
    exact (‹k = "r"›).symm
  · cases hrun

theorem lost_lock_fails_owned_run : ¬ ∀ (inputs : String → WorkflowRunControlClaimInput) (b : MemoryBackend),
    RunsKeyed b → ∀ steps w, Run (claims inputs fun _ _ _ => True).Step (claimWorld b) steps w →
      LosersHarmless inputs (fun _ _ _ => True) w := by
  intro h
  have hplay : ∃ w w', Move.playAll (claimWorld contendedBackend) lostLockRun = some w ∧
      Move.play w (.serve "a" (answeredCall "a")) = some w' ∧
      (w.shared.backend.runs.get? "r").map (fun run => (run.workerId, run.status)) =
        some (some (executionWorker "b"), .running) ∧
      (w'.shared.backend.runs.get? "r").map (fun run => (run.workerId, run.status)) =
        some (some (executionWorker "b"), .failed) := ⟨_, _, rfl, rfl, by decide, by decide⟩
  obtain ⟨w, w', hw, hw', hbefore, hafter⟩ := hplay
  obtain ⟨run, hrun, hb⟩ := Option.map_eq_some_iff.mp hbefore
  obtain ⟨failed, hfailed, ha⟩ := Option.map_eq_some_iff.mp hafter
  have hharmless := h contendedInputs contendedBackend contendedBackend_keyed _ w (Move.run_of_playAll lostLockRun_admitted hw)
  obtain ⟨run', hrun', hspared⟩ := hharmless.spares "a" w' (Move.step_of_play (answeredCall_admitted "a") hw')
    "r" run "b" hrun (congrArg Prod.fst hb) (by decide)
  obtain rfl : failed = run' := Option.some.inj (hfailed.symm.trans hrun')
  have hworker : failed.workerId = some (executionWorker "b") := congrArg Prod.fst ha
  obtain h | h | ⟨h, -, -⟩ := hspared
  · rw [hworker] at h
    exact absurd h (by decide)
  · rw [hworker] at h
    exact absurd h (by decide)
  · rw [show failed.status = .failed from congrArg Prod.snd ha, show run.status = .running from congrArg Prod.snd hb] at h
    cases h

variable {w : World RuntimeCall RuntimeCall.Answer Thrown WorkflowRunControlClaimOutcome ClaimState String}

theorem answeredCall_step (e : String) {c : RuntimeCall}
    {next : Except Thrown c.Answer → Runtime WorkflowRunControlClaimOutcome}
    (hw : w.running e = some (.await c next)) (ha : FailureMeetsNoOwner e c w.shared.backend) :
    (claims inputs FailureMeetsNoOwner).Step w (.awaits e)
      (w.become e (next (answeredCall e c w.shared).1) (answeredCall e c w.shared).2) :=
  .awaits hw ⟨ha, ⟨_, .answered _, rfl⟩, rfl⟩

theorem refusedCall_step (e : String) {c : RuntimeCall}
    {next : Except Thrown c.Answer → Runtime WorkflowRunControlClaimOutcome}
    (hw : w.running e = some (.await c next)) (ha : FailureMeetsNoOwner e c w.shared.backend) :
    (claims inputs FailureMeetsNoOwner).Step w (.awaits e)
      (w.become e (next (refusedCall e c w.shared).1) (refusedCall e c w.shared).2) :=
  .awaits hw ⟨ha, ⟨_, .refused _, rfl⟩, rfl⟩

def lonelyInputs (e : String) : WorkflowRunControlClaimInput :=
  if e = "a" then { contendedInputs e with run := { contendedRun with id := "q" } } else contendedInputs e

def lonelyBackend : MemoryBackend := { runs := contendedBackend.runs.set "q" { contendedRun with id := "q" } }

theorem lonelyBackend_keyed : RunsKeyed lonelyBackend := by
  intro k run hrun
  rw [lonelyBackend, OrdMap.get?_set] at hrun
  split at hrun
  · cases hrun
    exact (‹k = "q"›).symm
  · exact contendedBackend_keyed k run hrun

/-- One claim goes through while another one finds the lock held, and a third, whose lock call throws, fails a run that no
execution owns. -/
theorem losing_claims_harmless_contended : ∃ steps w,
    LosersHarmless lonelyInputs FailureMeetsNoOwner w ∧ w.shared.created = [("b", "r")] ∧
      w.running "c" = some (.settled (.ok { status := .skippedLockHeld })) ∧
      (w.shared.backend.runs.get? "q").map WorkflowRun.status = some .failed ∧
      Run (claims lonelyInputs FailureMeetsNoOwner).Step (claimWorld lonelyBackend) steps w := by
  have hnone : Run (claims lonelyInputs FailureMeetsNoOwner).Step (claimWorld lonelyBackend) [] _ := .nil
  have hstart := hnone.snoc (.starts (t := "b") rfl ⟨rfl, rfl⟩)
  have hlock := hstart.snoc (answeredCall_step "b" rfl trivial)
  have hother := hlock.snoc (.starts (t := "c") rfl ⟨rfl, rfl⟩)
  have hheld := hother.snoc (answeredCall_step "c" rfl trivial)
  have hlonely := hheld.snoc (.starts (t := "a") rfl ⟨rfl, rfl⟩)
  have hthrown := hlonely.snoc (refusedCall_step "a" rfl trivial)
  have hfailed := hthrown.snoc (answeredCall_step "a" rfl (by
    rintro - e' ⟨run, hrun, -, hworker⟩
    obtain rfl : { contendedRun with id := "q" } = run := Option.some.inj hrun
    cases hworker))
  have hread := hfailed.snoc (answeredCall_step "b" rfl trivial)
  have hassign := hread.snoc (answeredCall_step "b" rfl nofun)
  have hcreate := hassign.snoc (answeredCall_step "b" rfl trivial)
  exact ⟨_, _, losing_claims_harmless lonelyInputs lonelyBackend lonelyBackend_keyed hcreate, by decide, rfl, by decide, hcreate⟩

end Veryfront.Workflow
