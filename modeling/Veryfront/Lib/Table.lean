import Mathlib.Logic.Function.Basic
import Veryfront.Lib.ListUpdate

/-!
# Tables

A table is a function to options. A row is written, and rows of the first numbers are counted.
-/

namespace Veryfront.Lib.Table

open Function

variable {α β : Type} [DecidableEq α] {table : α → Option β} {a b : α} {x y : β}

theorem update_some_iff : update table a (some x) b = some y ↔ (b = a ∧ x = y) ∨ (b ≠ a ∧ table b = some y) := by
  by_cases h : b = a
  · subst h
    simp
  · simp [h]

theorem update_none_iff : update table a none b = some y ↔ b ≠ a ∧ table b = some y := by
  by_cases h : b = a
  · subst h
    simp
  · simp [h]

/-- How many of the first `n` rows are so. -/
def count (p : β → Bool) (table : Nat → Option β) (n : Nat) : Nat := (List.range n).countP fun i => (table i).any p

variable {p : β → Bool} {rows : Nat → Option β} {n i : Nat}

theorem count_congr {rows' : Nat → Option β} (h : ∀ i < n, (rows' i).any p = (rows i).any p) :
    count p rows' n = count p rows n :=
  List.countP_congr fun i hi => by rw [h i (List.mem_range.mp hi)]

theorem count_update_same (h : (rows i).any p = p x) : count p (update rows i (some x)) n = count p rows n := by
  refine count_congr fun j _ => ?_
  by_cases heq : j = i
  · subst heq
    rw [update_self, Option.any_some, h]
  · rw [update_of_ne heq]

theorem count_update_gain (hi : i < n) (hold : (rows i).any p = false) (hnew : p x = true) :
    count p (update rows i (some x)) n = count p rows n + 1 := by
  refine countP_flip List.nodup_range (List.mem_range.mpr hi) hold ?_ fun j _ hne => ?_
  · rw [update_self, Option.any_some, hnew]
  · rw [update_of_ne hne]

theorem count_update_loss (hi : i < n) (hold : (rows i).any p = true) (hnew : p x = false) :
    count p (update rows i (some x)) n + 1 = count p rows n := by
  refine (countP_flip List.nodup_range (List.mem_range.mpr hi) ?_ hold fun j _ hne => ?_).symm
  · rw [update_self, Option.any_some, hnew]
  · rw [update_of_ne hne]

theorem count_succ : count p rows (n + 1) = count p rows n + if (rows n).any p then 1 else 0 := by
  rw [count, List.range_succ, List.countP_append, List.countP_singleton]
  rfl

theorem count_push (x : β) : count p (update rows n (some x)) (n + 1) = count p rows n + if p x then 1 else 0 := by
  rw [count_succ, update_self, Option.any_some]
  congr 1
  refine count_congr fun i hi => ?_
  rw [update_of_ne (Nat.ne_of_lt hi)]

theorem count_eq_zero (h : ∀ i x, rows i = some x → p x = false) : count p rows n = 0 := by
  refine List.countP_eq_zero.mpr fun i _ hany => ?_
  obtain ⟨x, hx, hp⟩ := (Option.any_eq_true _ _).mp hany
  exact absurd ((h i x hx).symm.trans hp) Bool.false_ne_true

theorem length_le_count {rowNumbers : List Nat} (hnodup : rowNumbers.Nodup)
    (h : ∀ i ∈ rowNumbers, i < n ∧ (rows i).any p = true) : rowNumbers.length ≤ count p rows n := by
  rw [count, List.countP_eq_length_filter]
  refine (List.subperm_of_subset hnodup fun i hi => ?_).length_le
  exact List.mem_filter.mpr ⟨List.mem_range.mpr (h i hi).1, (h i hi).2⟩

end Veryfront.Lib.Table
