import Mathlib.Data.List.Lex
import Mathlib.Data.Multiset.AddSub
import Mathlib.Data.Sum.Order
import Veryfront.Config.Snapshot

/-!
# The canonical order of keys

Indices come first, and sorting gives the same list for the same keys. Every sorted key has its place among the keys as
they were created.
-/

namespace Veryfront.Config.Snapshots

open Lib

/-! ## Keys -/

theorem units_injective : Function.Injective units := List.map_injective_iff.mpr Fin.val_injective

theorem toArrayIndex_eq_some {key : JsString} {index : Nat} (h : toArrayIndex key = some index) : decimal index = units key := by
  rw [toArrayIndex] at h
  split at h
  case isTrue hvalid =>
    rw [← Option.some.inj h]
    exact hvalid.2.2
  case isFalse => cases h

/-- Indices are before other keys. -/
def rank (key : JsString) : ℕ ⊕ₗ JsString :=
  match toArrayIndex key with
  | some index => Sum.inlₗ index
  | none => Sum.inrₗ key

theorem rank_injective : Function.Injective rank := by
  intro left right h
  unfold rank at h
  cases hleft : toArrayIndex left with
  | some leftIndex =>
    cases hright : toArrayIndex right with
    | some rightIndex =>
      rw [hleft, hright] at h
      obtain rfl : leftIndex = rightIndex := Sum.inl.inj (toLex.injective h)
      exact units_injective ((toArrayIndex_eq_some hleft).symm.trans (toArrayIndex_eq_some hright))
    | none =>
      rw [hleft, hright] at h
      exact nomatch toLex.injective h
  | none =>
    cases hright : toArrayIndex right with
    | some rightIndex =>
      rw [hleft, hright] at h
      exact nomatch toLex.injective h
    | none =>
      rw [hleft, hright] at h
      exact Sum.inr.inj (toLex.injective h)

theorem compareCanonicalKeys_le_iff {left right : JsString} : compareCanonicalKeys left right ≤ 0 ↔ rank left ≤ rank right := by
  unfold compareCanonicalKeys rank
  cases toArrayIndex left with
  | some leftIndex =>
    cases toArrayIndex right with
    | some rightIndex => simp only [Sum.Lex.inl_le_inl_iff]; omega
    | none => simp
  | none =>
    cases toArrayIndex right with
    | some rightIndex => simp
    | none =>
      simp only [Sum.Lex.inr_le_inr_iff]
      rcases lt_trichotomy left right with h | rfl | h
      · simp [h, h.le]
      · simp
      · simp [h, h.not_gt, h.not_ge]

theorem pairwise_sortKeys (keys : List JsString) : (sortKeys keys).Pairwise fun left right => rank left ≤ rank right := by
  have hsorted := @List.pairwise_mergeSort _ (fun left right => decide (compareCanonicalKeys left right ≤ 0))
    (fun a b c => by simpa only [decide_eq_true_eq, compareCanonicalKeys_le_iff] using le_trans)
    (fun a b => by simpa only [Bool.or_eq_true, decide_eq_true_eq, compareCanonicalKeys_le_iff] using le_total _ _) keys
  exact hsorted.imp fun h => compareCanonicalKeys_le_iff.mp (of_decide_eq_true h)

theorem sortKeys_eq_of_perm {keys keys' : List JsString} (h : keys.Perm keys') : sortKeys (ownKeys keys) = sortKeys (ownKeys keys') := by
  have hperm := (sortKeys_perm keys).trans (h.trans (sortKeys_perm keys').symm)
  exact hperm.eq_of_pairwise (fun a b _ _ hab hba => rank_injective (le_antisymm hab hba)) (pairwise_sortKeys _) (pairwise_sortKeys _)

/-! ## Places -/

def place {keys sorted : List JsString} (h : sorted.Perm keys) (index : Fin sorted.length) : Fin keys.length :=
  ⟨keys.idxOf sorted[index], List.idxOf_lt_length_iff.mpr (h.mem_iff.mp (List.getElem_mem index.isLt))⟩

@[simp] theorem getElem_place {keys sorted : List JsString} (h : sorted.Perm keys) (index : Fin sorted.length) :
    keys[place h index] = sorted[index] := List.getElem_idxOf _

theorem place_bijective {keys sorted : List JsString} (h : sorted.Perm keys) (hkeys : keys.Nodup) : Function.Bijective (place h) := by
  rw [Fintype.bijective_iff_injective_and_card]
  constructor
  · intro i j hij
    have hkey : keys[place h i] = keys[place h j] := congrArg (fun k : Fin keys.length => keys[k]) hij
    have hsame : sorted[i] = sorted[j] := (getElem_place h i).symm.trans (hkey.trans (getElem_place h j))
    exact Fin.ext ((h.nodup_iff.mpr hkeys).getElem_inj_iff.mp hsame)
  · simp [h.length_eq]

theorem eq_place {keys sorted : List JsString} (h : sorted.Perm keys) (hkeys : keys.Nodup) {i : Fin keys.length}
    {j : Fin sorted.length} (hij : keys[i] = sorted[j]) : i = place h j := by
  have hsame : keys[i] = keys[place h j] := hij.trans (getElem_place h j).symm
  exact Fin.ext (hkeys.getElem_inj_iff.mp hsame)

end Veryfront.Config.Snapshots
