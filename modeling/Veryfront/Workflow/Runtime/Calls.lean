import Veryfront.Lib.Async
import Veryfront.Workflow.Backend.Memory

/-!
# The calls that the runtime awaits

The runtime's functions reach the backend, the run executor and the workflow executor through
awaited calls. A call does its work in one piece and answers; it may also throw, before its work or
after it. The helpers of the backend interface that only choose a method are one call each.
-/

namespace Veryfront.Workflow

open Veryfront.Lib MemoryBackend

/-- What a `throw` carries. Anything can be thrown, and only an object can be marked. -/
structure Thrown where
  message : String
  isObject : Bool := true
deriving DecidableEq, Repr

def Thrown.ofVeryfrontError : VeryfrontError → Thrown
  | .resourceNotFound detail => ⟨detail, true⟩
  | .orchestration detail => ⟨detail, true⟩
  | .invalidArgument detail => ⟨detail, true⟩

structure RunExecutionConfig where
  executionId : String
  run : WorkflowRun
  managerId : String
  timeout : Int
  env : JsonText
  debug : Bool
deriving DecidableEq

inductive RuntimeCall
  | getRun (runId : String)
  | updateRunIfStatus (runId : String) (expectedStatuses : List WorkflowStatus) (patch : WorkflowRunUpdate)
      (expectedWorkerId : Option String)
  | claimStalledRun (runId workerId : String) (stalledThreshold : Int)
  | acquireLock (runId : String) (duration : Int)
  | releaseLock (runId lockId : String)
  | createRunExecution (config : RunExecutionConfig)
deriving DecidableEq

@[reducible] def RuntimeCall.Answer : RuntimeCall → Type
  | .getRun _ => Option WorkflowRun
  | .updateRunIfStatus .. => Bool
  | .claimStalledRun .. => Bool
  | .acquireLock .. => Option String
  | .releaseLock .. => Unit
  | .createRunExecution _ => String

/-- What a call finds when it is served: the clock, and an identifier not used before. -/
structure Moment where
  now : Timestamp
  freshId : String

def ofReply {α : Type} (reply : Reply α) : Except Thrown α × MemoryBackend :=
  (reply.1.mapError Thrown.ofVeryfrontError, reply.2)

/-- The helper `updateRunIfStatus`: with a worker, the fenced method. -/
def updateRunFenced (b : MemoryBackend) (runId : String) (expectedStatuses : List WorkflowStatus)
    (patch : WorkflowRunUpdate) (expectedWorkerId : Option String) : Reply Bool :=
  match expectedWorkerId with
  | some worker => b.updateRunIfStatusAndWorker runId expectedStatuses worker patch
  | none => b.updateRunIfStatus runId expectedStatuses patch

/-- What a call does when it does not fail. -/
def perform (m : Moment) (b : MemoryBackend) : (c : RuntimeCall) → Except Thrown c.Answer × MemoryBackend
  | .getRun runId => (.ok (b.getRun runId), b)
  | .updateRunIfStatus runId statuses patch worker => ofReply (updateRunFenced b runId statuses patch worker)
  | .claimStalledRun runId worker threshold => ofReply (b.claimStalledRun m.now runId worker threshold)
  | .acquireLock runId duration => ofReply (b.acquireLock m.now m.freshId runId duration)
  | .releaseLock runId lockId => ofReply (b.releaseLock runId (some lockId))
  | .createRunExecution _ => (.ok m.freshId, b)

inductive Served (c : RuntimeCall) (b : MemoryBackend) :
    Option (Except Thrown c.Answer) → Except Thrown c.Answer → MemoryBackend → Prop
  | answered (m : Moment) : Served c b (some (perform m b c).1) (perform m b c).1 (perform m b c).2
  | refused (e : Thrown) : Served c b none (.error e) b
  | lost (m : Moment) (e : Thrown) : Served c b (some (perform m b c).1) (.error e) (perform m b c).2

theorem served_cases {c : RuntimeCall} {b b' : MemoryBackend} {done : Option (Except Thrown c.Answer)}
    {r : Except Thrown c.Answer} (h : Served c b done r b') :
    (∃ m, done = some (perform m b c).1 ∧ r = (perform m b c).1 ∧ b' = (perform m b c).2) ∨
    (∃ e, done = none ∧ r = .error e ∧ b' = b) ∨
    ∃ m e, done = some (perform m b c).1 ∧ r = .error e ∧ b' = (perform m b c).2 := by
  cases h with
  | answered m => exact .inl ⟨m, rfl, rfl, rfl⟩
  | refused e => exact .inr (.inl ⟨e, rfl, rfl, rfl⟩)
  | lost m e => exact .inr (.inr ⟨m, e, rfl, rfl, rfl⟩)

/-! ## What a call does to the run records -/

def ACTIVE_RECONCILE_STATUSES : List WorkflowStatus := [.pending, .running, .waiting]

@[simp] theorem runs_publishRunObservation (b : MemoryBackend) (r : String) :
    (b.publishRunObservation r).runs = b.runs := by
  unfold MemoryBackend.publishRunObservation MemoryBackend.advanceRunRetentionRevision
  split <;> rfl

@[simp] theorem runs_dropRunEvents (b : MemoryBackend) (r : String) : (b.dropRunEvents r).runs = b.runs := rfl

@[simp] theorem runs_persistRunEventDeliveryReceipts (b : MemoryBackend) (r : String) :
    (b.persistRunEventDeliveryReceipts r).runs = b.runs := by
  unfold MemoryBackend.persistRunEventDeliveryReceipts
  split <;> rfl

@[simp] theorem runs_storeRunUpdate (b : MemoryBackend) (r : String) (run : WorkflowRun)
    (status : Option WorkflowStatus) : (b.storeRunUpdate r run status).runs = b.runs.set r run := by
  unfold MemoryBackend.storeRunUpdate
  split <;> split <;> simp

/-- What a fenced update may come to: it took effect on a record that matched, with its answer or
a throw, or nothing changed. -/
inductive UpdateServed (b : MemoryBackend) (runId : String) (statuses : List WorkflowStatus)
    (patch : WorkflowRunUpdate) (worker : Option String) :
    Option (Except Thrown Bool) → Except Thrown Bool → MemoryBackend → Prop
  | applied (run : WorkflowRun) (r : Except Thrown Bool) : b.runs.get? runId = some run →
      matchesStatusAndWorker statuses worker run = true → r ≠ .ok false →
      UpdateServed b runId statuses patch worker (some (.ok true)) r
        (b.storeRunUpdate runId (mergeMemoryRunUpdate run patch) patch.status)
  | unmatched (run : WorkflowRun) : b.runs.get? runId = some run →
      matchesStatusAndWorker statuses worker run = false →
      UpdateServed b runId statuses patch worker (some (.ok false)) (.ok false) b
  | failed (done : Option (Except Thrown Bool)) (e : Thrown) : done ≠ some (.ok true) →
      UpdateServed b runId statuses patch worker done (.error e) b

section
variable {b b' : MemoryBackend} {runId : String} {statuses : List WorkflowStatus} {patch : WorkflowRunUpdate}
  {worker : Option String}

theorem updateRunFenced_eq : updateRunFenced b runId statuses patch worker =
    b.updateRunConditionally runId patch (matchesStatusAndWorker statuses worker) := by
  cases worker <;> rfl

theorem updateRunConditionally_cases (b : MemoryBackend) (runId : String) (patch : WorkflowRunUpdate)
    (isMatch : WorkflowRun → Bool) :
    (∃ run, b.runs.get? runId = some run ∧ isMatch run = true ∧ b.updateRunConditionally runId patch isMatch =
      (.ok true, b.storeRunUpdate runId (mergeMemoryRunUpdate run patch) patch.status)) ∨
    (∃ run, b.runs.get? runId = some run ∧ isMatch run = false ∧
      b.updateRunConditionally runId patch isMatch = (.ok false, b)) ∨
    ∃ e, b.updateRunConditionally runId patch isMatch = (.error e, b) := by
  unfold updateRunConditionally
  cases hrun : b.runs.get? runId with
  | none => exact .inr (.inr ⟨_, rfl⟩)
  | some run =>
    cases hm : isMatch run with
    | false => exact .inr (.inl ⟨run, rfl, hm, by simp [hm]⟩)
    | true =>
      cases ha : assertWorkflowRunUpdate patch with
      | error e => exact .inr (.inr ⟨e, by simp [hm]⟩)
      | ok _ => exact .inl ⟨run, rfl, hm, by simp [hm]⟩

theorem perform_update (m : Moment) : perform m b (.updateRunIfStatus runId statuses patch worker) =
    ofReply (b.updateRunConditionally runId patch (matchesStatusAndWorker statuses worker)) := by
  rw [← updateRunFenced_eq]
  rfl

theorem update_served {done : Option (Except Thrown Bool)} {r : Except Thrown Bool}
    (h : Served (RuntimeCall.updateRunIfStatus runId statuses patch worker) b done r b') :
    UpdateServed b runId statuses patch worker done r b' := by
  have hcases := updateRunConditionally_cases b runId patch (matchesStatusAndWorker statuses worker)
  obtain ⟨m, rfl, rfl, rfl⟩ | ⟨e, rfl, rfl, rfl⟩ | ⟨m, e, rfl, rfl, rfl⟩ := served_cases h
  · rw [perform_update]
    obtain ⟨run, hrun, hm, h⟩ | ⟨run, hrun, hm, h⟩ | ⟨e, h⟩ := hcases
    all_goals rw [h]
    · exact .applied run _ hrun hm nofun
    · exact .unmatched run hrun hm
    · exact .failed _ _ nofun
  · exact .failed none e nofun
  · rw [perform_update]
    obtain ⟨run, hrun, hm, h⟩ | ⟨run, hrun, hm, h⟩ | ⟨e', h⟩ := hcases
    all_goals rw [h]
    · exact .applied run _ hrun hm nofun
    · exact .failed _ _ nofun
    · exact .failed _ _ nofun

end

/-- The record that a stalled claim leaves: the claimant owns it, and little else changes. -/
inductive StalledServed (b : MemoryBackend) (runId worker : String) : MemoryBackend → Prop
  | claimed {b' : MemoryBackend} (run claimed : WorkflowRun) : b.runs.get? runId = some run →
      run.status = .running → claimed.status = run.status → claimed.error = run.error →
      claimed.id = run.id → claimed.nodeStates = run.nodeStates → claimed.workerId = some worker →
      b'.runs = b.runs.set runId claimed → StalledServed b runId worker b'
  | unclaimed : StalledServed b runId worker b

theorem claimStalledRun_served (b : MemoryBackend) (now : Timestamp) (runId worker : String) (threshold : Int) :
    StalledServed b runId worker (b.claimStalledRun now runId worker threshold).2 := by
  unfold claimStalledRun
  cases hrun : b.runs.get? runId with
  | none => exact .unclaimed
  | some run =>
    simp only
    split
    · exact .unclaimed
    · rename_i h
      have hs : run.status = .running := by
        by_contra hne
        exact h (.inl hne)
      exact .claimed run { run with
        workerId := some worker
        startedAt := some (run.startedAt.getD now)
        heartbeatAt := some now } hrun hs rfl rfl rfl rfl rfl (runs_publishRunObservation _ _)

theorem stalled_served {b b' : MemoryBackend} {runId worker : String} {threshold : Int}
    {done : Option (Except Thrown Bool)} {r : Except Thrown Bool}
    (h : Served (RuntimeCall.claimStalledRun runId worker threshold) b done r b') : StalledServed b runId worker b' := by
  obtain ⟨m, -, -, rfl⟩ | ⟨e, -, -, rfl⟩ | ⟨m, e, -, -, rfl⟩ := served_cases h
  · exact claimStalledRun_served b m.now runId worker threshold
  · exact .unclaimed
  · exact claimStalledRun_served b m.now runId worker threshold

def RuntimeCall.KeepsRuns : RuntimeCall → Prop
  | .updateRunIfStatus .. | .claimStalledRun .. => False
  | _ => True

theorem runs_acquireLock (b : MemoryBackend) (now : Timestamp) (lockId runId : String) (duration : Int) :
    (b.acquireLock now lockId runId duration).2.runs = b.runs := by
  unfold acquireLock
  split <;> rfl

theorem runs_releaseLock (b : MemoryBackend) (runId : String) (lockId : Option String) :
    (b.releaseLock runId lockId).2.runs = b.runs := by
  unfold releaseLock
  split
  · rfl
  · split <;> rfl

theorem perform_runs (m : Moment) (b : MemoryBackend) {c : RuntimeCall} (hc : c.KeepsRuns) :
    (perform m b c).2.runs = b.runs := by
  cases c with
  | getRun runId => rfl
  | updateRunIfStatus => exact hc.elim
  | claimStalledRun => exact hc.elim
  | acquireLock runId duration => exact runs_acquireLock ..
  | releaseLock runId lockId => exact runs_releaseLock ..
  | createRunExecution config => rfl

theorem served_runs {c : RuntimeCall} (hc : c.KeepsRuns) {b b' : MemoryBackend}
    {done : Option (Except Thrown c.Answer)} {r : Except Thrown c.Answer} (h : Served c b done r b') :
    b'.runs = b.runs := by
  cases h with
  | answered m => exact perform_runs m b hc
  | refused e => rfl
  | lost m e => exact perform_runs m b hc

theorem getRun_served {b b' : MemoryBackend} {runId : String}
    {done : Option (Except Thrown (Option WorkflowRun))} {latest : Option WorkflowRun}
    (h : Served (RuntimeCall.getRun runId) b done (.ok latest) b') : latest = b.runs.get? runId := by
  obtain ⟨m, -, h, -⟩ | ⟨e, -, h, -⟩ | ⟨m, e, -, h, -⟩ := served_cases h
  · exact Except.ok.inj h
  · cases h
  · cases h

end Veryfront.Workflow
