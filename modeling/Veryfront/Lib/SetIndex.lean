import Veryfront.Lib.OrdMap
import Veryfront.Lib.ListUpdate

/-!
# Maps from keys to sets

A reverse index holds a set of members for each key. Whether the key of an emptied set stays makes no
difference to which members a key has.
-/

namespace Veryfront.Lib

variable {κ α : Type*} [DecidableEq κ] [DecidableEq α]

namespace SetIndex

def members (index : OrdMap κ (List α)) (k : κ) : List α := (index.get? k).getD []

def add (index : OrdMap κ (List α)) (k : κ) (a : α) : OrdMap κ (List α) :=
  index.set k (appendNew (members index k) [a])

/-- The set stays when it is emptied. -/
def discard (index : OrdMap κ (List α)) (k : κ) (a : α) : OrdMap κ (List α) :=
  match index.get? k with
  | some held => index.set k (held.filter (· ≠ a))
  | none => index

/-- The key leaves with its last member. -/
def remove (index : OrdMap κ (List α)) (k : κ) (a : α) : OrdMap κ (List α) :=
  match (discard index k a).get? k with
  | some [] => (discard index k a).erase k
  | _ => discard index k a

theorem mem_add (index : OrdMap κ (List α)) (k : κ) (a : α) (j : κ) (b : α) :
    b ∈ members (add index k a) j ↔ b ∈ members index j ∨ (j = k ∧ b = a) := by
  unfold add
  rw [members, OrdMap.get?_set]
  by_cases hj : j = k
  · subst hj
    simp [mem_appendNew]
  · simp [hj, members]

theorem mem_discard (index : OrdMap κ (List α)) (k : κ) (a : α) (j : κ) (b : α) :
    b ∈ members (discard index k a) j ↔ b ∈ members index j ∧ ¬ (j = k ∧ b = a) := by
  unfold members discard
  split
  · rename_i l hl
    rw [OrdMap.get?_set]
    by_cases hj : j = k
    · subst hj
      simp [hl]
    · simp [hj]
  · rename_i hnone
    constructor
    · intro h
      refine ⟨h, ?_⟩
      rintro ⟨rfl, -⟩
      rw [hnone] at h
      cases h
    · exact And.left

theorem mem_remove (index : OrdMap κ (List α)) (k : κ) (a : α) (j : κ) (b : α) :
    b ∈ members (remove index k a) j ↔ b ∈ members index j ∧ ¬ (j = k ∧ b = a) := by
  rw [← mem_discard]
  unfold remove
  split
  · rename_i hnil
    unfold members
    rw [OrdMap.get?_erase]
    by_cases hj : j = k
    · subst hj
      simp [hnil]
    · simp [hj]
  · rfl

variable {f : OrdMap κ (List α) → κ → OrdMap κ (List α)}

theorem mem_foldl_remove {a : α}
    (hf : ∀ index k j b, b ∈ members (f index k) j ↔ b ∈ members index j ∧ ¬ (j = k ∧ b = a)) (ks : List κ)
    (index : OrdMap κ (List α)) (j : κ) (b : α) :
    b ∈ members (ks.foldl f index) j ↔ b ∈ members index j ∧ ¬ (j ∈ ks ∧ b = a) := by
  induction ks generalizing index with
  | nil => simp
  | cons k ks ih =>
    rw [List.foldl_cons, ih, hf]
    simp only [List.mem_cons]
    tauto

theorem mem_foldl_add (a : α) (ks : List κ) (index : OrdMap κ (List α)) (j : κ) (b : α) :
    b ∈ members (ks.foldl (fun index k => add index k a) index) j ↔ b ∈ members index j ∨ (j ∈ ks ∧ b = a) := by
  induction ks generalizing index with
  | nil => simp
  | cons k ks ih =>
    rw [List.foldl_cons, ih, mem_add]
    simp only [List.mem_cons]
    tauto

/-- No key is left with an empty set. -/
def Tight (index : OrdMap κ (List α)) : Prop := ∀ k, index.get? k ≠ some []

variable {index : OrdMap κ (List α)}

theorem tight_add (h : Tight index) (k : κ) (a : α) : Tight (add index k a) := by
  intro j hj
  by_cases hjk : j = k
  · have hmem := (mem_add index k a j a).mpr (Or.inr ⟨hjk, rfl⟩)
    rw [members, hj] at hmem
    cases hmem
  · rw [add, OrdMap.get?_set, if_neg hjk] at hj
    exact h j hj

theorem tight_remove (h : Tight index) (k : κ) (a : α) : Tight (remove index k a) := by
  have hother : ∀ j, j ≠ k → (discard index k a).get? j = index.get? j := by
    intro j hj
    unfold discard
    split
    · rw [OrdMap.get?_set, if_neg hj]
    · rfl
  intro j hj
  unfold remove at hj
  split at hj
  · rw [OrdMap.get?_erase] at hj
    split at hj
    · cases hj
    · rename_i hjk
      exact h j (hother j hjk ▸ hj)
  · rename_i hne
    by_cases hjk : j = k
    · exact hne (hjk ▸ hj)
    · exact h j (hother j hjk ▸ hj)

omit [DecidableEq α] in
theorem tight_foldl (hf : ∀ index k, Tight index → Tight (f index k))
    (ks : List κ) (h : Tight index) : Tight (ks.foldl f index) := by
  induction ks generalizing index with
  | nil => exact h
  | cons k ks ih => exact ih (hf index k h)

end SetIndex

end Veryfront.Lib
