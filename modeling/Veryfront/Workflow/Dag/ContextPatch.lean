import Veryfront.Lib.OrdMap

/-!
# Patches of records

What one node's work changed in the context or in the node states, as a patch, and the patch of a whole batch. Values are
compared by deep equality. A patch may delete a key and set it too. Then the key is set, since the deletions come first.
-/

namespace Veryfront.Workflow

open Veryfront.Lib

universe u

structure RecordPatch (α : Type u) where
  set : OrdMap String α
  delete : List String

variable {α : Type u}

namespace RecordPatch

def Disjoint (patch : RecordPatch α) : Prop := ∀ key, patch.set.contains key → key ∉ patch.delete

def leaves (patch : RecordPatch α) (key : String) (old : Option α) : Option α :=
  (patch.set.get? key).or (if key ∈ patch.delete then none else old)

end RecordPatch

def createRecordPatch [DecidableEq α] (before after : OrdMap String α) : RecordPatch α where
  set := after.entries.foldl
    (fun set (key, value) => if before.get? key = some value then set else set.set key value) .empty
  delete := before.keys.filter fun key => ¬ after.contains key

def applyRecordPatch (target : OrdMap String α) (patch : RecordPatch α) : OrdMap String α :=
  patch.set.entries.foldl (fun target (key, value) => target.set key value) (patch.delete.foldl (·.erase ·) target)

abbrev ContextPatch (α : Type u) := RecordPatch α

abbrev createContextPatch [DecidableEq α] (before after : OrdMap String α) : ContextPatch α := createRecordPatch before after

def createSetContextPatch (values : OrdMap String α) : ContextPatch α where
  set := values.entries.foldl (fun set (key, value) => set.set key value) .empty
  delete := []

abbrev applyContextPatch (target : OrdMap String α) (patch : ContextPatch α) : OrdMap String α := applyRecordPatch target patch

def RecordPatch.deleteKey (merged : RecordPatch α) (key : String) : RecordPatch α where
  set := merged.set.erase key
  delete := if key ∈ merged.delete then merged.delete else merged.delete ++ [key]

def RecordPatch.setKey (merged : RecordPatch α) (entry : String × α) : RecordPatch α where
  set := merged.set.set entry.1 entry.2
  delete := merged.delete.filter (· ≠ entry.1)

def RecordPatch.mergePatch (merged patch : RecordPatch α) : RecordPatch α :=
  patch.set.entries.foldl setKey (patch.delete.foldl deleteKey merged)

/-- A later operation wins when patches touch the same key. -/
def mergeContextPatches (patches : List (ContextPatch α)) : ContextPatch α :=
  patches.foldl RecordPatch.mergePatch (createSetContextPatch .empty)

/-! ## Applied patches -/

theorem get?_applyRecordPatch (target : OrdMap String α) (patch : RecordPatch α) (key : String) :
    (applyRecordPatch target patch).get? key = patch.leaves key (target.get? key) := by
  have hmerge : applyRecordPatch target patch = (target.eraseAll patch.delete).merge patch.set := rfl
  rw [hmerge, OrdMap.get?_merge, OrdMap.get?_eraseAll, RecordPatch.leaves]

theorem get?_foldl_applyRecordPatch (patches : List (RecordPatch α)) (target : OrdMap String α) (key : String) :
    (patches.foldl applyRecordPatch target).get? key =
      patches.foldl (fun old patch => patch.leaves key old) (target.get? key) := by
  induction patches generalizing target with
  | nil => rfl
  | cons patch patches ih => rw [List.foldl_cons, ih, get?_applyRecordPatch, List.foldl_cons]

/-! ## The patch of a change -/

section
variable [DecidableEq α] (before after : OrdMap String α)

theorem get?_createRecordPatch (key : String) :
    (createRecordPatch before after).set.get? key = if before.get? key = after.get? key then none else after.get? key := by
  have hmerge : (createRecordPatch before after).set =
      OrdMap.empty.merge (after.filter fun key value => before.get? key ≠ some value) := by
    rw [← OrdMap.foldl_set_filter]
    simp [createRecordPatch]
  rw [hmerge, OrdMap.get?_merge, OrdMap.get?_filter]
  cases after.get? key with
  | none => simp
  | some value => by_cases hsame : before.get? key = some value <;> simp [hsame, Option.filter]

theorem mem_createRecordPatch (key : String) :
    key ∈ (createRecordPatch before after).delete ↔ before.contains key ∧ ¬ after.contains key := by
  simp [createRecordPatch, OrdMap.contains_iff]

theorem disjoint_createRecordPatch : (createRecordPatch before after).Disjoint := by
  intro key hset hdelete
  rw [mem_createRecordPatch] at hdelete
  rw [OrdMap.contains, get?_createRecordPatch] at hset
  split at hset
  · cases hset
  · exact hdelete.2 hset

theorem get?_applyRecordPatch_create (target : OrdMap String α) (key : String) :
    (applyRecordPatch target (createRecordPatch before after)).get? key =
      if before.get? key = after.get? key then target.get? key else after.get? key := by
  rw [get?_applyRecordPatch, RecordPatch.leaves, get?_createRecordPatch]
  by_cases hsame : before.get? key = after.get? key
  · have hkept : key ∉ (createRecordPatch before after).delete := by
      rw [mem_createRecordPatch, OrdMap.contains, OrdMap.contains, hsame]
      exact fun h => h.2 h.1
    rw [if_pos hsame, if_pos hsame, Option.none_or, if_neg hkept]
  · rw [if_neg hsame, if_neg hsame]
    cases hafter : after.get? key with
    | some value => rfl
    | none =>
      have hgone : key ∈ (createRecordPatch before after).delete := by
        rw [hafter] at hsame
        rw [mem_createRecordPatch, OrdMap.contains, OrdMap.contains, hafter]
        exact ⟨Option.isSome_iff_ne_none.mpr hsame, Bool.false_ne_true⟩
      rw [if_pos hgone]
      rfl

end

/-! ## The patch of a batch -/

namespace RecordPatch

variable {merged : RecordPatch α}

theorem leaves_deleteKey (merged : RecordPatch α) (key other : String) (old : Option α) :
    (merged.deleteKey key).leaves other old = if other = key then none else merged.leaves other old := by
  have hmem : other ∈ (merged.deleteKey key).delete ↔ other = key ∨ other ∈ merged.delete := by
    unfold deleteKey
    dsimp only
    split
    · rename_i h
      exact ⟨.inr, fun hor => hor.elim (fun heq => heq ▸ h) id⟩
    · rw [List.mem_append, List.mem_singleton, or_comm]
  have hset : (merged.deleteKey key).set.get? other = if other = key then none else merged.set.get? other :=
    OrdMap.get?_erase ..
  rw [leaves, leaves, hset]
  by_cases h : other = key
  · rw [if_pos h, if_pos h, if_pos (hmem.mpr (.inl h))]
    rfl
  · simp [hmem, h]

theorem leaves_setKey (merged : RecordPatch α) (entry : String × α) (other : String) (old : Option α) :
    (merged.setKey entry).leaves other old = if other = entry.1 then some entry.2 else merged.leaves other old := by
  rw [leaves, leaves, setKey, OrdMap.get?_set]
  by_cases h : other = entry.1 <;> simp [h]

theorem disjoint_deleteKey (h : merged.Disjoint) (key : String) : (merged.deleteKey key).Disjoint := by
  intro other hset hdelete
  have hset : other ≠ key ∧ merged.set.contains other := by
    rw [deleteKey, OrdMap.contains, OrdMap.get?_erase] at hset
    split at hset
    · cases hset
    · rename_i hne
      exact ⟨hne, hset⟩
  unfold deleteKey at hdelete
  dsimp only at hdelete
  split at hdelete
  · exact h other hset.2 hdelete
  · rcases List.mem_append.mp hdelete with hold | hnew
    · exact h other hset.2 hold
    · exact hset.1 (List.mem_singleton.mp hnew)

theorem disjoint_setKey (h : merged.Disjoint) (entry : String × α) : (merged.setKey entry).Disjoint := by
  intro other hset hdelete
  obtain ⟨hold, hne⟩ := List.mem_filter.mp hdelete
  rw [decide_eq_true_eq] at hne
  rw [setKey, OrdMap.contains, OrdMap.get?_set, if_neg hne] at hset
  exact h other hset hold

theorem leaves_mergePatch (merged patch : RecordPatch α) (key : String) (old : Option α) :
    (merged.mergePatch patch).leaves key old = patch.leaves key (merged.leaves key old) := by
  have hdeletes (keys : List String) : ∀ merged : RecordPatch α, (keys.foldl deleteKey merged).leaves key old =
      if key ∈ keys then none else merged.leaves key old := by
    induction keys with
    | nil => exact fun _ => rfl
    | cons first keys ih =>
      intro merged
      rw [List.foldl_cons, ih, leaves_deleteKey]
      by_cases h : key = first <;> simp [h]
  have hsets (merged : RecordPatch α) : (patch.set.entries.foldl setKey merged).leaves key old =
      (patch.set.get? key).or (merged.leaves key old) := by
    rw [← OrdMap.foldl_latest]
    exact (List.foldl_hom (fun merged : RecordPatch α => merged.leaves key old)
      fun merged entry => (leaves_setKey merged entry key old).symm).symm
  rw [mergePatch, hsets, hdeletes]
  rfl

theorem disjoint_mergePatch (h : merged.Disjoint) (patch : RecordPatch α) : (merged.mergePatch patch).Disjoint := by
  have hdeleted := List.foldlRecOn patch.delete deleteKey h fun _ h key _ => disjoint_deleteKey h key
  exact List.foldlRecOn patch.set.entries setKey hdeleted fun _ h entry _ => disjoint_setKey h entry

end RecordPatch

theorem leaves_mergeContextPatches (patches : List (RecordPatch α)) (key : String) (old : Option α) :
    (mergeContextPatches patches).leaves key old = patches.foldl (fun old patch => patch.leaves key old) old := by
  have hfold (patches : List (RecordPatch α)) : ∀ merged : RecordPatch α,
      (patches.foldl RecordPatch.mergePatch merged).leaves key old =
        patches.foldl (fun old patch => patch.leaves key old) (merged.leaves key old) := by
    induction patches with
    | nil => exact fun _ => rfl
    | cons patch patches ih =>
      intro merged
      rw [List.foldl_cons, ih, RecordPatch.leaves_mergePatch, List.foldl_cons]
  exact hfold patches _

theorem disjoint_mergeContextPatches (patches : List (RecordPatch α)) : (mergeContextPatches patches).Disjoint :=
  List.foldlRecOn patches RecordPatch.mergePatch (fun _ h => absurd h Bool.false_ne_true)
    fun _ h patch _ => RecordPatch.disjoint_mergePatch h patch

theorem contextPatch_algebra [DecidableEq α] :
    (∀ before after : OrdMap String α,
      (∀ key, (applyContextPatch before (createContextPatch before after)).get? key = after.get? key) ∧
      (createContextPatch before after).Disjoint) ∧
    (∀ (patches : List (ContextPatch α)) (target : OrdMap String α),
      (∀ key, (applyContextPatch target (mergeContextPatches patches)).get? key =
        (patches.foldl applyContextPatch target).get? key) ∧
      (mergeContextPatches patches).Disjoint) := by
  refine ⟨fun before after => ⟨fun key => ?_, disjoint_createRecordPatch before after⟩,
    fun patches target => ⟨fun key => ?_, disjoint_mergeContextPatches patches⟩⟩
  · rw [get?_applyRecordPatch_create, ite_eq_right_iff]
    exact id
  · rw [get?_applyRecordPatch, leaves_mergeContextPatches, get?_foldl_applyRecordPatch]

end Veryfront.Workflow
