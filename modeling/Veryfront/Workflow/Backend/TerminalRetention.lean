import Veryfront.Lib.Generation
import Veryfront.Lib.Runs
import Veryfront.Workflow.Backend.RunRetention

/-!
# Deleting terminal runs

The revisions of the runs are a ledger of generation stamps, and the queue flags count the jobs that are
queued or out with a worker. So a listed run is deleted only if nothing touched it since, and a run with
work ahead of it is not listed.
-/

namespace Veryfront.Workflow

open Veryfront.Lib

/-! ## What the moves keep -/

namespace RetentionView

def ledger (v : RetentionView) : Ledger String := ⟨v.revisions.get?, v.nextGeneration⟩

@[simp] theorem ledger_next (v : RetentionView) : v.ledger.next = v.nextGeneration := rfl

@[simp] theorem ledger_stamp (v : RetentionView) (r : String) : v.ledger.stamp r = v.revisions.get? r := rfl

variable {v v' : RetentionView} {r : String} {e : RetentionEvent}

theorem advance_runs : (v.advance r).runs = v.runs := by
  unfold advance; split <;> rfl

theorem advance_queue : (v.advance r).queue = v.queue ∧ (v.advance r).queued = v.queued ∧
    (v.advance r).pending = v.pending := by
  unfold advance; split <;> exact ⟨rfl, rfl, rfl⟩

theorem advance_stamp (q : String) : (v.advance r).revisions.get? q =
    if q = r ∧ v.revisions.contains r then some v.nextGeneration else v.revisions.get? q := by
  unfold advance
  by_cases hc : v.revisions.contains r = true
  · simp [hc]
  · simp [hc]

theorem advance_next : v.nextGeneration ≤ (v.advance r).nextGeneration ∧
    (v.revisions.contains r → (v.advance r).nextGeneration = v.nextGeneration + 1) := by
  unfold advance
  split
  · exact ⟨Nat.le_succ _, fun _ => rfl⟩
  · rename_i hc
    exact ⟨Nat.le_refl _, fun h => absurd h hc⟩

theorem advance_renewed : Ledger.Renewed v.ledger (v.advance r).ledger r := by
  intro n hn
  rw [ledger_stamp, advance_stamp] at hn
  split at hn
  · rename_i hc
    cases hn
    rw [ledger_next, ledger_next, advance_next.2 hc.2]
    exact ⟨Nat.le_refl _, Nat.lt_succ_self _⟩
  · rename_i hc
    have hcontains : v.revisions.contains r = true := by simp [OrdMap.contains, hn]
    exact absurd ⟨rfl, hcontains⟩ hc

theorem advance_ledger : Ledger.Step v.ledger (v.advance r).ledger where
  grows := advance_next.1
  keys := by
    intro q
    by_cases hq : q = r
    · subst hq
      exact .inr advance_renewed
    · left
      rw [ledger_stamp, advance_stamp, if_neg fun h => hq h.1]
      rfl

theorem advance_consistent (hv : v.Consistent) : (v.advance r).Consistent where
  keyed := by
    rw [advance_runs]
    exact hv.keyed
  revised := by
    intro q
    rw [advance_runs, OrdMap.contains, advance_stamp]
    split
    · rename_i h
      rw [h.1, ← hv.revised, h.2]
      rfl
    · exact hv.revised q
  issued := advance_ledger.issued hv.issued
  flagged := by
    rw [advance_queue.1, advance_queue.2.1]
    exact hv.flagged

theorem createRun_renewed (run : WorkflowRun) : Ledger.Renewed v.ledger (v.createRun run).ledger run.id := by
  intro n hn
  simp only [ledger_stamp, createRun, OrdMap.get?_set, if_true, Option.some.injEq] at hn
  subst hn
  exact ⟨Nat.le_refl _, Nat.lt_succ_self _⟩

theorem createRun_ledger (run : WorkflowRun) : Ledger.Step v.ledger (v.createRun run).ledger where
  grows := Nat.le_succ _
  keys := by
    intro q
    by_cases hq : q = run.id
    · subst hq
      exact .inr (createRun_renewed run)
    · left
      simp [createRun, hq]

theorem deleteRun_ledger : Ledger.Step v.ledger (v.deleteRun r).ledger where
  grows := Nat.le_refl _
  keys := by
    intro q
    by_cases hq : q = r
    · right
      intro n hn
      simp [deleteRun, hq] at hn
    · left
      simp [deleteRun, hq]

theorem enqueue_ledger (job : WorkflowQueueItem) : Ledger.Step v.ledger (v.enqueue job).ledger := by
  have h := advance_ledger (r := job.runId) (v := { v with
    queue := insertBefore (fun j => j.priority.getD 0 < job.priority.getD 0) job v.queue
    queued := v.queued.set job.runId () })
  exact ⟨h.grows, h.keys⟩

theorem move_ledger (hmove : RetentionMove v e v') : Ledger.Step v.ledger v'.ledger := by
  cases hmove with
  | stay => exact .refl _
  | advance r _ => exact advance_ledger
  | @storeRun r old run _ _ => exact advance_ledger (v := { v with runs := v.runs.set r run }) (r := r)
  | createRun run => exact createRun_ledger run
  | deleteRun r => exact deleteRun_ledger
  | enqueue job => exact enqueue_ledger job
  | dequeue _ =>
    unfold RetentionView.dequeue
    split <;> exact .refl _
  | acknowledge r => exact .refl _
  | clear => exact ⟨Nat.le_refl _, fun k => .inr fun n hn => by cases hn⟩

theorem touched_renewed (hmove : RetentionMove v e v') (he : e = .touched r) : Ledger.Renewed v.ledger v'.ledger r := by
  cases hmove with
  | stay => cases he
  | advance q hq =>
    rcases hq with rfl | rfl
    · cases he
      exact advance_renewed
    · cases he
  | storeRun _ _ =>
    cases he
    exact advance_renewed (v := { v with runs := _ })
  | createRun run =>
    cases he
    exact createRun_renewed run
  | enqueue job =>
    cases he
    exact advance_renewed (v := { v with queue := _, queued := _ })
  | deleteRun => cases he
  | dequeue => cases he
  | acknowledge => cases he
  | clear => cases he

theorem storeRun_consistent {old run : WorkflowRun} (hv : v.Consistent) (hold : v.runs.get? r = some old)
    (hid : run.id = old.id) : (v.storeRun r run).Consistent := by
  refine advance_consistent ⟨?_, ?_, hv.issued, hv.flagged⟩
  · intro q run' hq
    rw [OrdMap.get?_set] at hq
    split at hq
    · rename_i heq
      cases hq
      rw [hid, hv.keyed r old hold, heq]
    · exact hv.keyed q run' hq
  · intro q
    rw [hv.revised, OrdMap.contains, OrdMap.contains, OrdMap.get?_set]
    split
    · rename_i heq
      rw [heq, hold]
      rfl
    · rfl

theorem createRun_consistent (hv : v.Consistent) (run : WorkflowRun) : (v.createRun run).Consistent where
  keyed := by
    intro q run' hq
    simp only [createRun, OrdMap.get?_set] at hq
    split at hq
    · rename_i heq
      cases hq
      exact heq.symm
    · exact hv.keyed q run' hq
  revised := by
    intro q
    have := hv.revised q
    simp only [OrdMap.contains, createRun, OrdMap.get?_set] at this ⊢
    split
    · rfl
    · exact this
  issued := (createRun_ledger run).issued hv.issued
  flagged := hv.flagged

theorem deleteRun_consistent (hv : v.Consistent) (r : String) : (v.deleteRun r).Consistent where
  keyed := by
    intro q run hq
    simp only [deleteRun, OrdMap.get?_erase] at hq
    split at hq
    · cases hq
    · exact hv.keyed q run hq
  revised := by
    intro q
    have := hv.revised q
    simp only [OrdMap.contains, deleteRun, OrdMap.get?_erase] at this ⊢
    split
    · rfl
    · exact this
  issued := deleteRun_ledger.issued hv.issued
  flagged := by
    intro item hitem
    simp only [deleteRun, List.mem_filter, decide_eq_true_eq] at hitem
    have := hv.flagged item hitem.1
    simpa [deleteRun, OrdMap.contains, hitem.2] using this

theorem enqueue_consistent (hv : v.Consistent) (job : WorkflowQueueItem) : (v.enqueue job).Consistent := by
  refine advance_consistent ⟨hv.keyed, hv.revised, hv.issued, ?_⟩
  intro item hitem
  rw [OrdMap.contains, OrdMap.get?_set]
  rcases List.mem_cons.mp ((insertBefore_perm _ _ _).subset hitem) with rfl | hitem
  · rw [if_pos rfl]
    rfl
  · split
    · rfl
    · exact hv.flagged item hitem

theorem acknowledge_consistent (hv : v.Consistent) (r : String) : (v.acknowledge r).Consistent where
  keyed := hv.keyed
  revised := hv.revised
  issued := hv.issued
  flagged := by
    intro item hitem
    have hflag := hv.flagged item hitem
    have hkept : ∀ p : OrdMap String Nat, (if !(v.queue.any fun item => item.runId = r) && !p.contains r then
        v.queued.erase r else v.queued).contains item.runId := by
      intro p
      split
      · rename_i hnone
        -- the flag goes only when no job of the run is left
        have hne : item.runId ≠ r := by
          rintro rfl
          simp only [Bool.and_eq_true, Bool.not_eq_true', List.any_eq_false, decide_eq_true_eq] at hnone
          exact hnone.1 item hitem rfl
        simpa [OrdMap.contains, hne] using hflag
      · exact hflag
    exact hkept _

theorem Consistent.move (hv : v.Consistent) (hmove : RetentionMove v e v') : v'.Consistent := by
  cases hmove with
  | stay => exact hv
  | advance r _ => exact advance_consistent hv
  | storeRun hold hid => exact storeRun_consistent hv hold hid
  | createRun run => exact createRun_consistent hv run
  | deleteRun r => exact deleteRun_consistent hv r
  | enqueue job => exact enqueue_consistent hv job
  | @dequeue job rest hqueue =>
    have hrest : ∀ item ∈ rest, v.queued.contains item.runId :=
      fun item hitem => hv.flagged item (hqueue ▸ List.mem_cons_of_mem _ hitem)
    unfold RetentionView.dequeue
    split <;> exact ⟨hv.keyed, hv.revised, hv.issued, hrest⟩
  | acknowledge r => exact acknowledge_consistent hv r
  | clear => exact ⟨by simp [RetentionView.clear], fun _ => rfl, by simp [RetentionView.clear], by
      simp [RetentionView.clear]⟩

end RetentionView

/-! ## Outstanding jobs -/

/-- The jobs of a run that are out with a worker, counted since the run was last deleted or the backend
cleared. An acknowledgement without such a job counts for nothing. -/
def outstandingAfter (r : String) (n : Nat) : RetentionEvent → Nat
  | .dequeued q => if q = r then n + 1 else n
  | .acknowledged q => if q = r then n - 1 else n
  | .deleted q => if q = r then 0 else n
  | .cleared => 0
  | _ => n

def outstanding (r : String) (events : List RetentionEvent) : Nat := events.foldl (outstandingAfter r) 0

def RetentionView.CountsJobs (v : RetentionView) (r : String) (n : Nat) : Prop :=
  v.pending.get? r = if n = 0 then none else some n

theorem RetentionView.CountsJobs.move {v v' : RetentionView} {r : String} {n : Nat} {e : RetentionEvent}
    (hv : v.Consistent) (h : v.CountsJobs r n) (hmove : RetentionMove v e v') :
    v'.CountsJobs r (outstandingAfter r n e) := by
  unfold CountsJobs at h ⊢
  have hcount : (v.pending.get? r).getD 0 = n := by
    rw [h]
    by_cases hn : n = 0 <;> simp [hn]
  cases hmove with
  | stay => exact h
  | advance q hq =>
    rw [advance_queue.2.2]
    rcases hq with rfl | rfl <;> exact h
  | @storeRun q old run _ _ =>
    rw [RetentionView.storeRun, advance_queue.2.2]
    exact h
  | createRun run => exact h
  | deleteRun q =>
    simp only [RetentionView.deleteRun, OrdMap.get?_erase, outstandingAfter]
    by_cases hq : r = q
    · simp [hq]
    · simp [hq, Ne.symm hq, h]
  | enqueue job =>
    rw [RetentionView.enqueue, advance_queue.2.2]
    exact h
  | @dequeue job rest hqueue =>
    have hflag : v.queued.contains job.runId := hv.flagged job (hqueue ▸ List.mem_cons_self)
    simp only [RetentionView.dequeue, hflag, if_true, OrdMap.get?_set, outstandingAfter]
    by_cases hq : r = job.runId
    · subst hq
      simp [hcount]
    · simp [hq, Ne.symm hq, h]
  | acknowledge q =>
    simp only [RetentionView.acknowledge, outstandingAfter]
    by_cases hq : q = r
    · subst hq
      rw [hcount]
      by_cases hn : n > 1
      · simp only [hn, if_true, OrdMap.get?_set]
        rw [if_neg (by omega)]
      · simp only [hn, if_false, OrdMap.get?_erase, if_true]
        rw [if_pos (by omega)]
    · simp only [if_neg hq]
      split
      · rw [OrdMap.get?_set, if_neg (Ne.symm hq), h]
      · rw [OrdMap.get?_erase, if_neg (Ne.symm hq), h]
  | clear => rfl

/-! ## Listing and deleting -/

inductive BackendStep : MemoryBackend → RetentionEvent → MemoryBackend → Prop
  | call {b : MemoryBackend} (c : BackendCall) : BackendStep b (c.exec b).1 (c.exec b).2

theorem BackendStep.move {b b' : MemoryBackend} {e : RetentionEvent} (hv : b.retentionOf.Consistent)
    (hstep : BackendStep b e b') : RetentionMove b.retentionOf e b'.retentionOf := by
  cases hstep with
  | call c => exact c.move hv

namespace MemoryBackend

variable {b : MemoryBackend}

theorem retentionOf_new (n : Nat) : ({ maxQueueSize := n } : MemoryBackend).retentionOf.Consistent :=
  ⟨by simp [retentionOf], fun _ => rfl, by simp [retentionOf], by simp [retentionOf]⟩

theorem run_consistent (hv : b.retentionOf.Consistent) {events : List RetentionEvent} {b' : MemoryBackend}
    (hrun : Run BackendStep b events b') : b'.retentionOf.Consistent :=
  Run.invariant (fun b => b.retentionOf.Consistent) hv (fun _ _ _ h hstep => h.move (hstep.move h)) hrun

theorem run_counts (hv : b.retentionOf.Consistent) (r : String) {n : Nat} (hn : b.retentionOf.CountsJobs r n)
    {events : List RetentionEvent} {b' : MemoryBackend} (hrun : Run BackendStep b events b') :
    b'.retentionOf.CountsJobs r (events.foldl (outstandingAfter r) n) := by
  induction hrun with
  | nil => exact hn
  | snoc hrun hstep ih =>
    have h := run_consistent hv hrun
    rw [List.foldl_append]
    exact ih.move h (hstep.move h)

variable {c : TerminalRunRetentionCandidate}

theorem mem_insertBounded {l : List TerminalRunRetentionCandidate} {x : TerminalRunRetentionCandidate} {n : Nat}
    (h : x ∈ (insertBoundedTerminalRetentionCandidate l c n).1) : x = c ∨ x ∈ l := by
  have hins : ∀ y ∈ insertBefore (fun y => compareTerminalRetentionCandidates y c = .gt) c l, y = c ∨ y ∈ l :=
    fun y hy => List.mem_cons.mp ((insertBefore_perm _ _ _).subset hy)
  unfold insertBoundedTerminalRetentionCandidate at h
  simp only [] at h
  split at h
  · exact hins x h
  · exact hins x ((List.dropLast_sublist _).subset h)

theorem listed_from_run {completedBefore : Timestamp} {limit : Int}
    (hc : c ∈ (b.listTerminalRunRetentionCandidates completedBefore limit).1) :
    ∃ run ∈ b.runs.values, b.terminalRetryQueued.contains run.id = false ∧
      b.terminalRetryPending.contains run.id = false ∧ c.runId = run.id ∧
      c.revision = (b.runRetentionRevisions.get? run.id).getD 0 := by
  unfold listTerminalRunRetentionCandidates at hc
  split at hc
  · cases hc
  · refine List.foldlRecOn (motive := fun acc : List TerminalRunRetentionCandidate × Bool => c ∈ acc.1 → _) _ _ (by simp) ?_ hc
    intro acc ih run hrun h
    split at h
    · exact ih h
    · rename_i hidle
      simp only [Bool.or_eq_true, not_or, Bool.not_eq_true] at hidle
      split at h
      · exact ih h
      · rename_i candidate hcandidate
        rcases mem_insertBounded h with rfl | h
        · unfold memoryTerminalRetentionCandidate at hcandidate
          split at hcandidate
          · split at hcandidate
            · cases hcandidate
              exact ⟨run, hrun, hidle.1, hidle.2, rfl, rfl⟩
            · cases hcandidate
          · cases hcandidate
        · exact ih h

theorem listed_revision (hv : b.retentionOf.Consistent) {completedBefore : Timestamp} {limit : Int}
    (hc : c ∈ (b.listTerminalRunRetentionCandidates completedBefore limit).1) :
    b.runRetentionRevisions.get? c.runId = some c.revision := by
  obtain ⟨run, hrun, -, -, hid, hrev⟩ := listed_from_run hc
  obtain ⟨r, hr⟩ := (OrdMap.mem_values _ _).mp hrun
  have hkey : run.id = r := hv.keyed r run hr
  have hcontains : b.runRetentionRevisions.contains r = true :=
    (hv.revised r).trans (Option.isSome_iff_exists.mpr ⟨run, hr⟩)
  obtain ⟨n, hn⟩ := Option.isSome_iff_exists.mp hcontains
  rw [hid, hrev, hkey, hn]
  rfl

theorem deleteTerminalRun_stale
    (h : b.runRetentionRevisions.get? c.runId ≠ some c.revision) :
    b.deleteTerminalRunIfUnchanged c = (.ok false, b) := by
  unfold deleteTerminalRunIfUnchanged
  split
  · rfl
  · split
    · rfl
    · rw [if_pos (.inr (.inr (.inr (.inr (.inl h)))))]

end MemoryBackend

def BackendCall.execAll (b : MemoryBackend) : List BackendCall → List RetentionEvent × MemoryBackend
  | [] => ([], b)
  | c :: cs => ((c.exec b).1 :: (execAll (c.exec b).2 cs).1, (execAll (c.exec b).2 cs).2)

theorem BackendCall.run_execAll (b : MemoryBackend) (calls : List BackendCall) :
    Run BackendStep b (execAll b calls).1 (execAll b calls).2 := by
  induction calls generalizing b with
  | nil => exact .nil
  | cons c cs ih => exact .cons (.call c) (ih _)

/-- Once a listed run was touched, whatever became of it in between, its candidate deletes
nothing. And a run is never listed while it has a job queued or out with a worker. -/
theorem terminal_deletion_fenced {maxQueueSize : Nat} {before : List RetentionEvent} {b : MemoryBackend}
    (hrun : Run BackendStep { maxQueueSize := maxQueueSize } before b) (completedBefore : Timestamp) (limit : Int)
    {c : TerminalRunRetentionCandidate} (hc : c ∈ (b.listTerminalRunRetentionCandidates completedBefore limit).1) :
    (∀ later b', Run BackendStep b later b' → .touched c.runId ∈ later →
      b'.deleteTerminalRunIfUnchanged c = (.ok false, b')) ∧
    (∀ job ∈ b.queue, job.runId ≠ c.runId) ∧ outstanding c.runId before = 0 := by
  have hv := MemoryBackend.run_consistent (MemoryBackend.retentionOf_new maxQueueSize) hrun
  have hrev := MemoryBackend.listed_revision hv hc
  refine ⟨?_, ?_, ?_⟩
  · intro later b' hlater htouched
    have hstale : b'.retentionOf.ledger.Stale c.runId c.revision := by
      refine Run.after (fun e => e = RetentionEvent.touched c.runId)
        (fun b : MemoryBackend => b.retentionOf.Consistent ∧ c.revision < b.nextRunRetentionGeneration)
        (fun b : MemoryBackend => b.retentionOf.ledger.Stale c.runId c.revision)
        ⟨hv, hv.issued _ _ hrev⟩ ?_ ?_ ?_ hlater ⟨_, htouched, rfl⟩
      · intro s e s' h hstep
        have hmove := hstep.move h.1
        exact ⟨h.1.move hmove, Nat.lt_of_lt_of_le h.2 (RetentionView.move_ledger hmove).grows⟩
      · intro s e s' h hstep he
        have hmove := hstep.move h.1
        exact (RetentionView.touched_renewed hmove he).stale (RetentionView.move_ledger hmove) h.2
      · intro s e s' h hs hstep
        exact (RetentionView.move_ledger (hstep.move h.1)).stale hs
    exact MemoryBackend.deleteTerminalRun_stale hstale.2
  · obtain ⟨run, -, hqueued, -, hid, -⟩ := MemoryBackend.listed_from_run hc
    intro job hjob heq
    have hflag : b.terminalRetryQueued.contains job.runId = true := hv.flagged job hjob
    rw [heq, hid, hqueued] at hflag
    cases hflag
  · obtain ⟨run, -, -, hpending, hid, -⟩ := MemoryBackend.listed_from_run hc
    have hcount := MemoryBackend.run_counts (MemoryBackend.retentionOf_new maxQueueSize) c.runId (n := 0) rfl hrun
    have hnone : b.terminalRetryPending.get? c.runId = none := by
      simpa [OrdMap.contains, hid] using hpending
    have hcount : b.terminalRetryPending.get? c.runId =
        if outstanding c.runId before = 0 then none else some (outstanding c.runId before) := hcount
    by_contra hne
    rw [hnone, if_neg hne] at hcount
    cases hcount

def endedRun (id : String) : WorkflowRun where
  id := id
  workflowId := "w"
  status := .completed
  input := "null"
  nodeStates := .empty
  currentNodes := []
  context := .empty
  createdAt := 0
  completedAt := some 1
  sourceIntegrationPolicy := some "{}"

theorem terminal_deletion_fenced_retried :
    let b := (BackendCall.execAll {} [.createRun (endedRun "r")]).2
    let c : TerminalRunRetentionCandidate := ⟨"r", "w", 0, .completed, 1, 0⟩
    let b' := (BackendCall.execAll b [.enqueue ⟨"r", "w", "null", none, 2⟩]).2
    b'.deleteTerminalRunIfUnchanged c = (.ok false, b') := by
  intro b c b'
  exact (terminal_deletion_fenced (BackendCall.run_execAll {} _) 10 5 (by decide)).1 _ _
    (BackendCall.run_execAll b _) (by decide)

/-- How many jobs of a run were taken from the queue and not acknowledged, ever. -/
def unacknowledged (r : String) (events : List RetentionEvent) : Nat :=
  events.count (.dequeued r) - events.count (.acknowledged r)

/-- Deleting a run forgets its job: a run that is stored under the id again is listed, although a worker
still holds the job. -/
theorem unacknowledged_run_listed : ∃ events b, Run BackendStep {} events b ∧ unacknowledged "r" events = 1 ∧
    ∃ c ∈ (b.listTerminalRunRetentionCandidates 10 5).1, c.runId = "r" := by
  refine ⟨_, _, BackendCall.run_execAll {} [.enqueue ⟨"r", "w", "null", none, 0⟩, .dequeue, .deleteRun "r",
    .createRun (endedRun "r")], by decide, by decide⟩

end Veryfront.Workflow
