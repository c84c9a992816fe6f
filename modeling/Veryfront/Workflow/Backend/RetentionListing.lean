import Mathlib.Data.List.Lex
import Mathlib.Data.Prod.Lex
import Veryfront.Lib.Bounded
import Veryfront.Lib.Unicode
import Veryfront.Workflow.Backend.TerminalRetention

/-!
# Listing the oldest terminal runs

A sweep asks for the runs that ended before a cutoff, the oldest first, and for a limited number of them. The backend
reads its runs in no order that matters, and keeps a list that is never longer than the limit.
-/

namespace Veryfront.Workflow

open Veryfront.Lib

theorem codeUnits_injective : Function.Injective codeUnits := by
  intro a b h
  have hunits (s : String) : codeUnits s = (s.toList.map Char.toNat).flatMap unitsOf := by
    rw [List.flatMap_map]
    rfl
  rw [hunits, hunits] at h
  exact flatMap_units_injective h

namespace TerminalRunRetentionCandidate

/-- By the end, then by the id. -/
def rank (c : TerminalRunRetentionCandidate) : Int ×ₗ List Nat := toLex (c.completedAt, codeUnits c.runId)

theorem compare_gt (left right : TerminalRunRetentionCandidate) :
    MemoryBackend.compareTerminalRetentionCandidates left right = .gt ↔ right.rank < left.rank := by
  rw [rank, rank, Prod.Lex.toLex_lt_toLex]
  unfold MemoryBackend.compareTerminalRetentionCandidates
  by_cases htime : left.completedAt = right.completedAt
  · by_cases hid : left.runId = right.runId
    · simp [htime, hid]
    · have hne : codeUnits left.runId ≠ codeUnits right.runId := fun h => hid (codeUnits_injective h)
      simp only [htime, hid, ne_eq, not_true_eq_false, if_false, lt_irrefl, false_or, true_and]
      split
      · rename_i hlt
        simp [not_lt_of_gt hlt]
      · rename_i hge
        simp [lt_of_le_of_ne (not_lt.mp hge) (Ne.symm hne)]
  · simp only [ne_eq, htime, not_false_eq_true, if_true, compare_gt_iff_gt, Ne.symm htime, false_and, or_false]

end TerminalRunRetentionCandidate

namespace MemoryBackend

variable (b : MemoryBackend) (completedBefore : Timestamp)

def eligibleRuns : List WorkflowRun :=
  b.runs.values.filter fun run => isTerminal run.status && run.completedAt.any (· < completedBefore) &&
    !b.terminalRetryQueued.contains run.id && !b.terminalRetryPending.contains run.id

/-- What a sweep is told of a run that ended. -/
def candidateOf (run : WorkflowRun) : TerminalRunRetentionCandidate :=
  ⟨run.id, run.workflowId, run.createdAt, run.status, run.completedAt.getD 0,
    (b.runRetentionRevisions.get? run.id).getD 0⟩

/-- All eligible runs, the oldest first, and of those that ended at one time by their ids. -/
def oldestFirst : List TerminalRunRetentionCandidate :=
  ((b.eligibleRuns completedBefore).map b.candidateOf).insertionSort fun left right => left.rank ≤ right.rank

variable {b completedBefore}

theorem insertBounded_eq (candidates : List TerminalRunRetentionCandidate) (candidate : TerminalRunRetentionCandidate)
    (limit : Nat) : insertBoundedTerminalRetentionCandidate candidates candidate limit =
      insertBounded TerminalRunRetentionCandidate.rank limit candidate candidates := by
  have hbehind : (fun c => decide (compareTerminalRetentionCandidates c candidate = .gt)) =
      fun c => decide (candidate.rank < c.rank) := by
    funext c
    rw [decide_eq_decide]
    exact c.compare_gt candidate
  rw [insertBoundedTerminalRetentionCandidate, hbehind]
  rfl

theorem retentionCandidate_eq (run : WorkflowRun) (revision : Nat) :
    memoryTerminalRetentionCandidate run completedBefore revision =
      if isTerminal run.status && run.completedAt.any (· < completedBefore) then
        some ⟨run.id, run.workflowId, run.createdAt, run.status, run.completedAt.getD 0, revision⟩
      else none := by
  unfold memoryTerminalRetentionCandidate
  cases run.completedAt <;> simp

theorem scan_eligible (limit : Nat) (runs : List WorkflowRun) : ∀ acc : List TerminalRunRetentionCandidate × Bool,
    runs.foldl (fun acc run =>
      if b.terminalRetryQueued.contains run.id || b.terminalRetryPending.contains run.id then acc
      else match memoryTerminalRetentionCandidate run completedBefore ((b.runRetentionRevisions.get? run.id).getD 0) with
        | none => acc
        | some candidate =>
          let (candidates, pushedOut) := insertBoundedTerminalRetentionCandidate acc.1 candidate limit
          (candidates, acc.2 || pushedOut)) acc =
      ((runs.filter fun run => isTerminal run.status && run.completedAt.any (· < completedBefore) &&
        !b.terminalRetryQueued.contains run.id && !b.terminalRetryPending.contains run.id).map b.candidateOf).foldl
        (keepLowest TerminalRunRetentionCandidate.rank limit) acc := by
  induction runs with
  | nil => exact fun _ => rfl
  | cons run runs ih =>
    intro acc
    rw [List.foldl_cons, ih, List.filter_cons, retentionCandidate_eq]
    cases hqueued : b.terminalRetryQueued.contains run.id <;> cases hpending : b.terminalRetryPending.contains run.id <;>
      cases hended : isTerminal run.status && run.completedAt.any (· < completedBefore)
    case false.false.true =>
      simp only [Bool.or_self, Bool.false_eq_true, if_false, if_true, Bool.not_false, Bool.and_self, List.map_cons,
        List.foldl_cons, insertBounded_eq]
      rfl
    all_goals simp

theorem ranks_nodup (hids : (b.runs.values.map (·.id)).Nodup) :
    (((b.eligibleRuns completedBefore).map b.candidateOf).map TerminalRunRetentionCandidate.rank).Nodup := by
  rw [List.map_map]
  refine List.pairwise_map.mpr (((List.pairwise_map.mp hids).filter _).imp fun {left right} hne heq => hne ?_)
  exact codeUnits_injective (Prod.mk.inj (toLex_inj.mp heq)).2

theorem list_eq_oldestFirst (hids : (b.runs.values.map (·.id)).Nodup) (completedBefore : Timestamp) {limit : Int}
    (hpos : 0 < limit) (hsafe : limit ≤ NUMBER_MAX_SAFE_INTEGER) :
    b.listTerminalRunRetentionCandidates completedBefore limit =
      ((b.oldestFirst completedBefore).take limit.toNat, decide (limit < (b.eligibleRuns completedBefore).length)) := by
  rw [listTerminalRunRetentionCandidates, if_neg (by omega)]
  refine (scan_eligible limit.toNat b.runs.values ([], false)).trans ?_
  refine (keepLowest_eq limit.toNat (ranks_nodup hids)).trans (Prod.ext rfl ?_)
  rw [List.length_map, decide_eq_decide]
  exact Int.toNat_lt hpos.le

theorem oldestFirst_perm (hids : (b.runs.values.map (·.id)).Nodup) (completedBefore : Timestamp)
    {runs : OrdMap String WorkflowRun} (hperm : runs.entries.Perm b.runs.entries) :
    ({ b with runs }.eligibleRuns completedBefore).Perm (b.eligibleRuns completedBefore) ∧
    { b with runs }.oldestFirst completedBefore = b.oldestFirst completedBefore := by
  have heligible : ({ b with runs }.eligibleRuns completedBefore).Perm (b.eligibleRuns completedBefore) :=
    (hperm.map Prod.snd).filter _
  exact ⟨heligible, (insertionSort_perm (heligible.map b.candidateOf).symm (ranks_nodup hids)).symm⟩

theorem ids_nodup (hv : b.retentionOf.Consistent) : (b.runs.values.map (·.id)).Nodup := by
  have hkeys : b.runs.values.map (·.id) = b.runs.keys := by
    rw [OrdMap.values, OrdMap.keys, List.map_map]
    refine List.map_congr_left fun entry hentry => ?_
    exact hv.keyed entry.1 entry.2 ((OrdMap.get?_eq_some ..).mpr hentry)
  rw [hkeys]
  exact b.runs.keys_nodup

/-- The runs that are listed are the first of all eligible ones, sorted, and the sweep learns whether there are more. In
what order the runs are stored makes no difference. A limit that is not positive or beyond the safe integers lists none. -/
theorem listed_oldest_first (hids : (b.runs.values.map (·.id)).Nodup) (completedBefore : Timestamp) (limit : Int) :
    (0 < limit → limit ≤ NUMBER_MAX_SAFE_INTEGER →
      b.listTerminalRunRetentionCandidates completedBefore limit =
        ((b.oldestFirst completedBefore).take limit.toNat, decide (limit < (b.eligibleRuns completedBefore).length)) ∧
      ∀ runs : OrdMap String WorkflowRun, runs.entries.Perm b.runs.entries →
        { b with runs }.listTerminalRunRetentionCandidates completedBefore limit =
          b.listTerminalRunRetentionCandidates completedBefore limit) ∧
    (limit ≤ 0 ∨ NUMBER_MAX_SAFE_INTEGER < limit → b.listTerminalRunRetentionCandidates completedBefore limit = ([], false)) := by
  refine ⟨fun hpos hsafe => ⟨list_eq_oldestFirst hids completedBefore hpos hsafe, fun runs hperm => ?_⟩, fun hlimit => ?_⟩
  · obtain ⟨heligible, holdest⟩ := oldestFirst_perm hids completedBefore hperm
    have hids' : (runs.values.map (·.id)).Nodup :=
      ((hperm.map Prod.snd).map WorkflowRun.id).nodup_iff.mpr hids
    rw [list_eq_oldestFirst hids' completedBefore hpos hsafe, list_eq_oldestFirst hids completedBefore hpos hsafe, holdest,
      heligible.length_eq]
  · rw [listTerminalRunRetentionCandidates, if_pos (by omega)]

theorem listed_oldest_first_stored :
    let b := (BackendCall.execAll {} [.createRun (endedRun "s"), .createRun (endedRun "r")]).2
    b.listTerminalRunRetentionCandidates 10 1 = ([⟨"r", "w", 0, .completed, 1, 1⟩], true) := by
  intro b
  have hids := ids_nodup (run_consistent (retentionOf_new _) (BackendCall.run_execAll {}
    [.createRun (endedRun "s"), .createRun (endedRun "r")]))
  have hsafe : (1 : Int) ≤ NUMBER_MAX_SAFE_INTEGER := by decide
  rw [((listed_oldest_first hids 10 1).1 Int.one_pos hsafe).1]
  decide

/-- A limit beyond the safe integers lists nothing. -/
theorem listed_unsafe_limit :
    let b := (BackendCall.execAll {} [.createRun (endedRun "r")]).2
    b.listTerminalRunRetentionCandidates 10 (2 ^ 53) ≠
      ((b.oldestFirst 10).take (2 ^ 53), decide ((2 ^ 53 : Int) < (b.eligibleRuns 10).length)) := by
  intro b h
  have hmore : b.listTerminalRunRetentionCandidates 10 (2 ^ 53) = ([], false) := by
    decide
  have hone : (b.oldestFirst 10).length = 1 := by
    decide
  rw [hmore] at h
  have hlength := congrArg (fun listed => listed.1.length) h
  rw [List.length_take, hone] at hlength
  cases hlength

end MemoryBackend

end Veryfront.Workflow
