import Mathlib.Data.List.Sort
import Veryfront.Lib.ListUpdate

/-!
# The first few of a sorted list

Records come in any order, and a list keeps the `k` of them that rank lowest, sorted. Each one is put in its place,
and the last one falls out of a list that is full. That is the sorted list of all, cut off.
-/

namespace Veryfront.Lib

variable {α β : Type*} [LinearOrder β] (rank : α → β)

/-- Behind all records of its rank. -/
def insertByRank (a : α) (l : List α) : List α := insertBefore (fun b => decide (rank a < rank b)) a l

/-- The list with the record in its place, and whether that pushed the last one out. -/
def insertBounded (k : Nat) (a : α) (l : List α) : List α × Bool :=
  let inserted := insertByRank rank a l
  if inserted.length ≤ k then (inserted, false) else (inserted.dropLast, true)

/-- One record more for the list and for what is known of the rest. -/
def keepLowest (k : Nat) (kept : List α × Bool) (a : α) : List α × Bool :=
  ((insertBounded rank k a kept.1).1, kept.2 || (insertBounded rank k a kept.1).2)

variable {rank}

instance total_rank : Std.Total fun a b : α => rank a ≤ rank b := ⟨fun a b => le_total (rank a) (rank b)⟩

instance trans_rank : IsTrans α fun a b => rank a ≤ rank b := ⟨fun _ _ _ => le_trans⟩

theorem insertByRank_pairwise {a : α} {l : List α} (h : l.Pairwise fun b c => rank b ≤ rank c) :
    (insertByRank rank a l).Pairwise fun b c => rank b ≤ rank c :=
  pairwise_insertBefore h (fun _ _ hlt => le_of_lt (of_decide_eq_true hlt))
    fun _ _ hge => not_lt.mp (of_decide_eq_false hge)

theorem take_insertBefore (p : α → Bool) (a : α) : ∀ (k : Nat) (l : List α),
    (insertBefore p a (l.take k)).take k = (insertBefore p a l).take k
  | 0, _ => rfl
  | _ + 1, [] => rfl
  | k + 1, b :: l => by
    rw [List.take_succ_cons, insertBefore, insertBefore]
    split
    · have htake : (b :: l.take k).take k = (b :: l).take k := by
        rw [← List.take_succ_cons, List.take_take, Nat.min_eq_left (Nat.le_succ k)]
      show a :: (b :: l.take k).take k = a :: (b :: l).take k
      rw [htake]
    · rw [List.take_succ_cons, List.take_succ_cons, take_insertBefore p a k l]

theorem insertBounded_take (k : Nat) (a : α) (l : List α) :
    insertBounded rank k a (l.take k) = ((insertByRank rank a l).take k, decide (k ≤ l.length)) := by
  have hlength : (insertByRank rank a (l.take k)).length = min k l.length + 1 := by
    rw [insertByRank, (insertBefore_perm _ _ _).length_eq, List.length_cons, List.length_take]
  have htake : (insertByRank rank a (l.take k)).take k = (insertByRank rank a l).take k := take_insertBefore _ a k l
  unfold insertBounded
  dsimp only
  split
  · rename_i hroom
    rw [← htake, List.take_of_length_le hroom, decide_eq_false (by omega)]
  · rename_i hfull
    rw [← htake, List.dropLast_eq_take, hlength, decide_eq_true (by omega)]
    congr 2
    omega

variable (rank) in
theorem foldl_keepLowest (k : Nat) (as : List α) : ∀ l : List α,
    as.foldl (keepLowest rank k) (l.take k, decide (k < l.length)) =
      ((as.foldl (fun l a => insertByRank rank a l) l).take k, decide (k < l.length + as.length)) := by
  induction as with
  | nil => exact fun _ => rfl
  | cons a as ih =>
    intro l
    have hstep : keepLowest rank k (l.take k, decide (k < l.length)) a =
        ((insertByRank rank a l).take k, decide (k < (insertByRank rank a l).length)) := by
      rw [keepLowest, insertBounded_take, insertByRank, (insertBefore_perm _ _ _).length_eq, List.length_cons]
      refine Prod.ext rfl ?_
      rw [← Bool.decide_or, decide_eq_decide]
      omega
    rw [List.foldl_cons, hstep, ih, List.foldl_cons, insertByRank, (insertBefore_perm _ _ _).length_eq, List.length_cons,
      List.length_cons]
    refine Prod.ext rfl ?_
    rw [decide_eq_decide]
    omega

/-! ## The sorted list -/

theorem sorted_unique {as bs : List α} (hperm : as.Perm bs) (hnodup : (as.map rank).Nodup)
    (has : as.Pairwise fun a b => rank a ≤ rank b) (hbs : bs.Pairwise fun a b => rank a ≤ rank b) : as = bs := by
  refine hperm.eq_of_pairwise (fun a b ha hb hab hba => ?_) has hbs
  exact List.inj_on_of_nodup_map hnodup ha (hperm.mem_iff.mpr hb) (le_antisymm hab hba)

variable (rank) in
theorem foldl_insertByRank (as : List α) : ∀ l : List α, l.Pairwise (fun a b => rank a ≤ rank b) →
    (as.foldl (fun l a => insertByRank rank a l) l).Pairwise (fun a b => rank a ≤ rank b) ∧
    (as.foldl (fun l a => insertByRank rank a l) l).Perm (as ++ l) := by
  induction as with
  | nil => exact fun _ h => ⟨h, .refl _⟩
  | cons a as ih =>
    intro l h
    obtain ⟨hsorted, hperm⟩ := ih _ (insertByRank_pairwise (a := a) h)
    refine ⟨hsorted, hperm.trans ?_⟩
    exact ((insertBefore_perm _ a l).append_left as).trans List.perm_middle

theorem keepLowest_eq (k : Nat) {as : List α} (hnodup : (as.map rank).Nodup) :
    as.foldl (keepLowest rank k) ([], false) =
      ((as.insertionSort fun a b => rank a ≤ rank b).take k, decide (k < as.length)) := by
  obtain ⟨hsorted, hperm⟩ := foldl_insertByRank rank as [] .nil
  rw [List.append_nil] at hperm
  have heq : as.foldl (fun l a => insertByRank rank a l) [] = as.insertionSort fun a b => rank a ≤ rank b :=
    sorted_unique (hperm.trans (List.perm_insertionSort _ as).symm) ((hperm.map rank).nodup_iff.mpr hnodup) hsorted
      (List.pairwise_insertionSort _ as)
  have hfold := foldl_keepLowest rank k as []
  rw [heq, List.take_nil, List.length_nil, Nat.zero_add, decide_eq_false (Nat.not_lt_zero k)] at hfold
  exact hfold

theorem insertionSort_perm {as bs : List α} (hperm : as.Perm bs) (hnodup : (as.map rank).Nodup) :
    (as.insertionSort fun a b => rank a ≤ rank b) = bs.insertionSort fun a b => rank a ≤ rank b := by
  have hsort := List.perm_insertionSort (fun a b => rank a ≤ rank b) as
  refine sorted_unique (hsort.trans (hperm.trans (List.perm_insertionSort _ bs).symm)) ?_ (List.pairwise_insertionSort _ as)
    (List.pairwise_insertionSort _ bs)
  exact (hsort.map rank).nodup_iff.mpr hnodup

end Veryfront.Lib
