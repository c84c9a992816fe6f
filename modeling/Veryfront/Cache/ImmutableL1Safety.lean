import Veryfront.Cache.ImmutableL1
import Veryfront.Lib.Runs

/-!
# What the immutable file cache serves

The byte total and the two reverse indexes say what the entries say, and the ceilings hold. A drop of a key
changes the counters that tokens of earlier reads of the key carry, so nothing read before the drop is
admitted after it, and what was admitted before it leaves with it.
-/

namespace Veryfront.Cache

open Lib

namespace ImmutableFileCacheL1

/-! ## The store agrees with its indexes -/

/-- Everything the store keeps besides its entries follows from them. -/
structure Consistent (l1 : ImmutableFileCacheL1) : Prop where
  bytes : l1.retainedBytes = ((l1.entries.values.map ImmutableL1Entry.valueBytes).sum : Nat)
  byCacheKey : ∀ storeKey cacheKey, storeKey ∈ SetIndex.members l1.storeKeysByCacheKey cacheKey ↔
    ∃ entry, l1.entries.get? storeKey = some entry ∧ entry.cacheKey = cacheKey
  byBucket : ∀ storeKey bucket, storeKey ∈ SetIndex.members l1.storeKeysByBucket bucket ↔
    ∃ entry, l1.entries.get? storeKey = some entry ∧ entry.bucketPrefix = bucket
  cacheKeysTight : SetIndex.Tight l1.storeKeysByCacheKey
  bucketsTight : SetIndex.Tight l1.storeKeysByBucket
  measured : ∀ storeKey entry, l1.entries.get? storeKey = some entry →
    entry.valueBytes = entry.value.length * bytesPerValueChar
  bucketed : ∀ storeKey entry, l1.entries.get? storeKey = some entry → entry.bucketPrefix = bucketPrefixOf entry.cacheKey

/-- The two ceilings on the whole store. -/
structure WithinCeilings (ceilings : ImmutableL1Ceilings) (l1 : ImmutableFileCacheL1) : Prop where
  size : l1.entries.size ≤ ceilings.maxEntries
  bytes : l1.retainedBytes ≤ ceilings.maxTotalBytes

theorem create_consistent : createImmutableFileCacheL1.Consistent where
  bytes := rfl
  byCacheKey := by
    intro storeKey cacheKey
    simp [createImmutableFileCacheL1, SetIndex.members]
  byBucket := by
    intro storeKey bucket
    simp [createImmutableFileCacheL1, SetIndex.members]
  cacheKeysTight := by
    intro k h
    cases h
  bucketsTight := by
    intro k h
    cases h
  measured := by
    intro storeKey entry h
    cases h
  bucketed := by
    intro storeKey entry h
    cases h

/-! ## An entry leaves -/

theorem removeEntry_get? (l1 : ImmutableFileCacheL1) (storeKey j : Text) :
    (l1.removeEntry storeKey).entries.get? j = if j = storeKey then none else l1.entries.get? j := by
  unfold removeEntry
  split
  · rename_i hnone
    split
    · rename_i hj
      rw [hj, hnone]
    · rfl
  · exact OrdMap.get?_erase _ _ _

theorem removeEntry_fences (l1 : ImmutableFileCacheL1) (storeKey : Text) :
    (l1.removeEntry storeKey).keyGenerations = l1.keyGenerations ∧ (l1.removeEntry storeKey).sweep = l1.sweep := by
  unfold removeEntry
  split <;> exact ⟨rfl, rfl⟩

variable {l1 : ImmutableFileCacheL1}

theorem removeEntry_consistent (h : l1.Consistent) (storeKey : Text) :
    (l1.removeEntry storeKey).Consistent := by
  unfold removeEntry
  split
  · exact h
  · rename_i entry hentry
    have hget : ∀ j e, (l1.entries.erase storeKey).get? j = some e ↔ j ≠ storeKey ∧ l1.entries.get? j = some e := by
      intro j e
      rw [OrdMap.get?_erase]
      split <;> simp_all
    refine ⟨?_, ?_, ?_, SetIndex.tight_remove h.cacheKeysTight _ _, SetIndex.tight_remove h.bucketsTight _ _, ?_, ?_⟩
    · have hsum := ((OrdMap.values_erase_perm hentry).map ImmutableL1Entry.valueBytes).sum_eq
      rw [List.map_cons, List.sum_cons] at hsum
      have hbytes := h.bytes
      rw [hsum] at hbytes
      simp only
      omega
    · intro j k
      simp only [SetIndex.mem_remove, h.byCacheKey, hget]
      grind
    · intro j k
      simp only [SetIndex.mem_remove, h.byBucket, hget]
      grind
    · exact fun j e he => h.measured j e ((hget j e).mp he).2
    · exact fun j e he => h.bucketed j e ((hget j e).mp he).2

variable {ceilings : ImmutableL1Ceilings}

theorem removeEntry_within (h : l1.WithinCeilings ceilings)
    (storeKey : Text) : (l1.removeEntry storeKey).WithinCeilings ceilings := by
  have hs := h.size
  have hb := h.bytes
  unfold removeEntry
  split
  · exact h
  · constructor
    · simp only [OrdMap.size_erase]
      split <;> omega
    · simp only
      omega

theorem removeEntries_get? (l1 : ImmutableFileCacheL1) (storeKeys : List Text) (j : Text) :
    (l1.removeEntries storeKeys).entries.get? j = if j ∈ storeKeys then none else l1.entries.get? j := by
  induction storeKeys generalizing l1 with
  | nil => simp [removeEntries]
  | cons storeKey rest ih =>
    rw [removeEntries, List.foldl_cons, ← removeEntries, ih, removeEntry_get?]
    by_cases hj : j = storeKey <;> simp [hj]

variable {P : ImmutableFileCacheL1 → Prop}

theorem removeEntries_keeps (hP : ∀ l1 storeKey, P l1 → P (l1.removeEntry storeKey)) (h : P l1) (storeKeys : List Text) : P
    (l1.removeEntries storeKeys) := by
  induction storeKeys generalizing l1 with
  | nil => exact h
  | cons storeKey rest ih => exact ih (hP l1 storeKey h)

/-- The entries are among those of `m`, and the counters are those of `m`. -/
structure Shrinks (l1 m : ImmutableFileCacheL1) : Prop where
  entries : ∀ j e, l1.entries.get? j = some e → m.entries.get? j = some e
  keyGenerations : l1.keyGenerations = m.keyGenerations
  sweep : l1.sweep = m.sweep

theorem Shrinks.refl (l1 : ImmutableFileCacheL1) : l1.Shrinks l1 := ⟨fun _ _ h => h, rfl, rfl⟩

theorem Shrinks.removeEntry {m : ImmutableFileCacheL1} (h : l1.Shrinks m) (storeKey : Text) :
    (l1.removeEntry storeKey).Shrinks m := by
  obtain ⟨hgen, hsweep⟩ := removeEntry_fences l1 storeKey
  refine ⟨fun j e he => ?_, hgen.trans h.keyGenerations, hsweep.trans h.sweep⟩
  rw [removeEntry_get?] at he
  split at he
  · cases he
  · exact h.entries j e he

theorem removeEntries_shrinks (l1 : ImmutableFileCacheL1) (storeKeys : List Text) : (l1.removeEntries storeKeys).Shrinks l1 :=
  removeEntries_keeps (P := fun s => s.Shrinks l1) (fun _ storeKey h => Shrinks.removeEntry h storeKey) (Shrinks.refl l1) storeKeys

theorem removeEntries_consistent (h : l1.Consistent) (storeKeys : List Text) :
    (l1.removeEntries storeKeys).Consistent :=
  removeEntries_keeps (P := Consistent) (fun _ storeKey h => removeEntry_consistent h storeKey) h storeKeys

theorem removeEntries_within (h : l1.WithinCeilings ceilings)
    (storeKeys : List Text) : (l1.removeEntries storeKeys).WithinCeilings ceilings :=
  removeEntries_keeps (P := WithinCeilings ceilings) (fun _ storeKey h => removeEntry_within h storeKey) h storeKeys

/-! ## A lookup -/

section Lookup

variable (l1 : ImmutableFileCacheL1) (scope cacheKey : Text) (maxAgeMs : Option ℚ) (now : ℚ)

theorem get?_moved {storeKey : Text} {entry : ImmutableL1Entry} (h : l1.entries.get? storeKey = some entry) (j : Text) :
    ((l1.entries.erase storeKey).set storeKey entry).get? j = l1.entries.get? j := by
  rw [OrdMap.get?_set, OrdMap.get?_erase]
  split
  · rename_i hj
    rw [hj, h]
  · rfl

theorem lookup_shrinks : (l1.lookup scope cacheKey maxAgeMs now).1.Shrinks l1 := by
  unfold lookup
  simp only
  split
  · exact .refl l1
  · rename_i entry hentry
    split
    · exact (Shrinks.refl l1).removeEntry _
    split
    · exact .refl l1
    · refine ⟨fun j e he => ?_, rfl, rfl⟩
      rwa [get?_moved l1 hentry] at he

theorem lookup_consistent (h : l1.Consistent) : (l1.lookup scope cacheKey maxAgeMs now).1.Consistent := by
  unfold lookup
  simp only
  split
  · exact h
  · rename_i entry hentry
    split
    · exact removeEntry_consistent h _
    split
    · exact h
    · have hget := get?_moved l1 hentry
      refine ⟨?_, ?_, ?_, h.cacheKeysTight, h.bucketsTight, ?_, ?_⟩
      · have hset := OrdMap.values_set_perm (l1.entries.erase (scopedKey scope cacheKey)) (scopedKey scope cacheKey) entry
        rw [OrdMap.erase_of_get?_none (m := l1.entries.erase _) (by rw [OrdMap.get?_erase, if_pos rfl])] at hset
        have hsum := ((hset.trans (OrdMap.values_erase_perm hentry).symm).map ImmutableL1Entry.valueBytes).sum_eq
        simp only [hsum, h.bytes]
      · simpa only [hget] using h.byCacheKey
      · simpa only [hget] using h.byBucket
      · simpa only [hget] using h.measured
      · simpa only [hget] using h.bucketed

theorem lookup_within (h : l1.WithinCeilings ceilings) :
    (l1.lookup scope cacheKey maxAgeMs now).1.WithinCeilings ceilings := by
  unfold lookup
  simp only
  split
  · exact h
  · rename_i entry hentry
    split
    · exact removeEntry_within h _
    split
    · exact h
    · have hsize := h.size
      have hpos : l1.entries.size ≠ 0 := by
        intro h0
        rw [(OrdMap.size_eq_zero _).mp h0] at hentry
        cases hentry
      refine ⟨?_, h.bytes⟩
      simp only [OrdMap.size_set, OrdMap.size_erase, OrdMap.contains, OrdMap.get?_erase, hentry]
      simp only [if_true, Option.isSome_none, Option.isSome_some, Bool.false_eq_true, if_false]
      omega

theorem lookup_hit {value : Text} (h : (l1.lookup scope cacheKey maxAgeMs now).2 = some value) :
    ∃ entry, l1.entries.get? (scopedKey scope cacheKey) = some entry ∧ entry.value = value ∧
      now < entry.expiresAtElapsedMs ∧ ∀ maxAge ∈ maxAgeMs, now - entry.readStartedAtElapsedMs < maxAge := by
  unfold lookup at h
  simp only at h
  split at h
  · cases h
  · rename_i entry hentry
    split at h
    · cases h
    rename_i hexp
    split at h
    · cases h
    rename_i hage
    refine ⟨entry, hentry, Option.some.inj h, not_le.mp hexp, ?_⟩
    intro maxAge hmem
    rw [Option.mem_def.mp hmem] at hage
    simpa using hage

end Lookup

/-! ## An admission -/

variable {entry : ImmutableL1Entry}

theorem insertEntry_consistent (h : l1.Consistent) {storeKey : Text}
    (hnone : l1.entries.get? storeKey = none) (hmeasured : entry.valueBytes = entry.value.length * bytesPerValueChar)
    (hbucketed : entry.bucketPrefix = bucketPrefixOf entry.cacheKey) : (l1.insertEntry storeKey entry).Consistent := by
  have hget : ∀ j e, (l1.entries.set storeKey entry).get? j = some e ↔
      (j = storeKey ∧ e = entry) ∨ (j ≠ storeKey ∧ l1.entries.get? j = some e) := by
    intro j e
    rw [OrdMap.get?_set]
    split <;> simp_all [eq_comm]
  refine ⟨?_, ?_, ?_, SetIndex.tight_add h.cacheKeysTight _ _, SetIndex.tight_add h.bucketsTight _ _, ?_, ?_⟩
  · have hsum := ((OrdMap.values_set_perm l1.entries storeKey entry).map ImmutableL1Entry.valueBytes).sum_eq
    rw [OrdMap.erase_of_get?_none hnone, List.map_cons, List.sum_cons] at hsum
    have hbytes := h.bytes
    simp only [insertEntry, hsum]
    omega
  · intro j k
    simp only [insertEntry, SetIndex.mem_add, h.byCacheKey, hget]
    grind
  · intro j k
    simp only [insertEntry, SetIndex.mem_add, h.byBucket, hget]
    grind
  · intro j e he
    obtain ⟨-, rfl⟩ | ⟨-, he⟩ := (hget j e).mp he
    · exact hmeasured
    · exact h.measured j e he
  · intro j e he
    obtain ⟨-, rfl⟩ | ⟨-, he⟩ := (hget j e).mp he
    · exact hbucketed
    · exact h.bucketed j e he

theorem evictOldest_keeps (hP : ∀ l1 storeKey, P l1 → P (l1.removeEntry storeKey))
    (ceilings : ImmutableL1Ceilings) (fuel : Nat) (h : P l1) : P (evictOldest ceilings fuel l1) := by
  induction fuel generalizing l1 with
  | zero => exact h
  | succ fuel ih =>
    unfold evictOldest
    split
    · split
      · exact h
      · exact ih (hP l1 _ h)
    · exact h

theorem evictOverflow_keeps (hP : ∀ l1 storeKey, P l1 → P (l1.removeEntry storeKey))
    (ceilings : ImmutableL1Ceilings) (h : P l1) : P (l1.evictOverflow ceilings) :=
  evictOldest_keeps hP ceilings _ h

theorem not_overCeiling (h : l1.overCeiling ceilings = false) :
    l1.WithinCeilings ceilings := by
  simp only [overCeiling, Bool.or_eq_false_iff, decide_eq_false_iff_not, not_lt] at h
  exact ⟨h.1, h.2⟩

theorem within_of_size_eq_zero (h : l1.Consistent)
    (h0 : l1.entries.size = 0) : l1.WithinCeilings ceilings := by
  refine ⟨h0.le.trans (Nat.zero_le _), ?_⟩
  rw [h.bytes, OrdMap.eq_empty_of_size h0]
  exact Int.natCast_nonneg _

theorem evictOldest_within (ceilings : ImmutableL1Ceilings) (fuel : Nat) (h : l1.Consistent)
    (hfuel : l1.entries.size ≤ fuel) : (evictOldest ceilings fuel l1).WithinCeilings ceilings := by
  induction fuel generalizing l1 with
  | zero => exact within_of_size_eq_zero h (Nat.le_zero.mp hfuel)
  | succ fuel ih =>
    unfold evictOldest
    split
    · split
      · rename_i hhead
        refine within_of_size_eq_zero h ?_
        have hkeys := List.head?_eq_none_iff.mp hhead
        rw [OrdMap.keys, List.map_eq_nil_iff] at hkeys
        rw [OrdMap.size, hkeys, List.length_nil]
      · rename_i oldest hhead
        refine ih (removeEntry_consistent h oldest) ?_
        obtain ⟨entry, hentry⟩ : ∃ entry, l1.entries.get? oldest = some entry := by
          rw [← Option.isSome_iff_exists]
          exact (OrdMap.contains_iff _ _).mpr (List.mem_of_head? hhead)
        simp only [removeEntry, hentry, OrdMap.size_erase, OrdMap.contains, Option.isSome_some, if_true]
        omega
    · rename_i hover
      exact not_overCeiling (Bool.eq_false_iff.mpr hover)

/-- An admission went through: the counters were those of the token, and the entry is new or goes back to the
start of the read. -/
def Admitted (l1 : ImmutableFileCacheL1) (cacheKey value : Text) (token : ImmutableL1ReadToken) (ttlMs : Option ℚ)
    (entry : ImmutableL1Entry) : Prop :=
  ∃ ttl, ttlMs = some ttl ∧ token.sweep = l1.sweep ∧ token.key = l1.generation cacheKey ∧ entry.cacheKey = cacheKey ∧
    entry.value = value ∧ entry.readStartedAtElapsedMs = token.startedAtElapsedMs ∧
    entry.expiresAtElapsedMs = token.startedAtElapsedMs + ttl

section Admit

variable (ceilings : ImmutableL1Ceilings) (l1 : ImmutableFileCacheL1) (scope cacheKey value : Text)
  (token : ImmutableL1ReadToken) (ttlMs : Option ℚ) (now sweptAt : ℚ)

theorem admit_cases : l1.admitEntry ceilings scope cacheKey value token ttlMs now sweptAt = l1 ∨
    ∃ entry, l1.Admitted cacheKey value token ttlMs entry ∧
      entry.valueBytes = entry.value.length * bytesPerValueChar ∧ entry.bucketPrefix = bucketPrefixOf entry.cacheKey ∧
      l1.admitEntry ceilings scope cacheKey value token ttlMs now sweptAt =
        (((l1.sweepExpired sweptAt).1.removeEntry (scopedKey scope cacheKey)).insertEntry (scopedKey scope cacheKey)
          entry).evictOverflow ceilings := by
  unfold admitEntry
  split
  · exact Or.inl rfl
  · rename_i ttl
    simp only
    split
    · exact Or.inl rfl
    split
    · exact Or.inl rfl
    split
    · exact Or.inl rfl
    rename_i hsweep
    split
    · exact Or.inl rfl
    rename_i hkey
    split
    · exact Or.inl rfl
    split
    · exact Or.inl rfl
    exact Or.inr ⟨_, ⟨ttl, rfl, not_not.mp hsweep, not_not.mp hkey, rfl, rfl, rfl, rfl⟩, rfl, rfl, rfl⟩

theorem swept_get?_none (storeKey : Text) : ((l1.sweepExpired sweptAt).1.removeEntry storeKey).entries.get? storeKey = none := by
  rw [removeEntry_get?, if_pos rfl]

theorem admit_fences :
    (l1.admitEntry ceilings scope cacheKey value token ttlMs now sweptAt).keyGenerations = l1.keyGenerations ∧
      (l1.admitEntry ceilings scope cacheKey value token ttlMs now sweptAt).sweep = l1.sweep := by
  obtain h | ⟨entry, -, -, -, h⟩ := admit_cases ceilings l1 scope cacheKey value token ttlMs now sweptAt
  · rw [h]
    exact ⟨rfl, rfl⟩
  · rw [h]
    have hswept := (removeEntries_shrinks l1 (l1.expiredKeys sweptAt)).removeEntry (scopedKey scope cacheKey)
    exact evictOverflow_keeps (P := fun s => s.keyGenerations = l1.keyGenerations ∧ s.sweep = l1.sweep)
      (fun s storeKey hs => ⟨(removeEntry_fences s storeKey).1.trans hs.1, (removeEntry_fences s storeKey).2.trans hs.2⟩)
      ceilings ⟨hswept.keyGenerations, hswept.sweep⟩

theorem admit_get? {j : Text}
    (h : (l1.admitEntry ceilings scope cacheKey value token ttlMs now sweptAt).entries.get? j = some entry) :
    l1.entries.get? j = some entry ∨
      (j = scopedKey scope cacheKey ∧ l1.Admitted cacheKey value token ttlMs entry) := by
  obtain heq | ⟨new, hnew, -, -, heq⟩ := admit_cases ceilings l1 scope cacheKey value token ttlMs now sweptAt
  · rw [heq] at h
    exact Or.inl h
  · rw [heq] at h
    have hswept := (removeEntries_shrinks l1 (l1.expiredKeys sweptAt)).removeEntry (scopedKey scope cacheKey)
    have hinserted : ∀ j e, (((l1.sweepExpired sweptAt).1.removeEntry (scopedKey scope cacheKey)).insertEntry
        (scopedKey scope cacheKey) new).entries.get? j = some e →
        l1.entries.get? j = some e ∨ (j = scopedKey scope cacheKey ∧ e = new) := by
      intro j e he
      rw [insertEntry, OrdMap.get?_set] at he
      split at he
      · rename_i hj
        exact Or.inr ⟨hj, (Option.some.inj he).symm⟩
      · exact Or.inl (hswept.entries j e he)
    have hkeep := evictOverflow_keeps (P := fun s => ∀ j e, s.entries.get? j = some e →
        l1.entries.get? j = some e ∨ (j = scopedKey scope cacheKey ∧ e = new))
      (fun s storeKey hs j e he => hs j e (((Shrinks.refl s).removeEntry storeKey).entries j e he)) ceilings hinserted
    obtain hold | ⟨hj, rfl⟩ := hkeep j entry h
    · exact Or.inl hold
    · exact Or.inr ⟨hj, hnew⟩

theorem admit_consistent (h : l1.Consistent) :
    (l1.admitEntry ceilings scope cacheKey value token ttlMs now sweptAt).Consistent := by
  obtain heq | ⟨entry, -, hmeasured, hbucketed, heq⟩ := admit_cases ceilings l1 scope cacheKey value token ttlMs now sweptAt
  · rwa [heq]
  · rw [heq]
    exact evictOverflow_keeps (P := Consistent) (fun _ storeKey h => removeEntry_consistent h storeKey) ceilings
      (insertEntry_consistent (removeEntry_consistent (removeEntries_consistent h _) _) (swept_get?_none l1 sweptAt _)
        hmeasured hbucketed)

theorem admit_within (h : l1.Consistent) (hw : l1.WithinCeilings ceilings) :
    (l1.admitEntry ceilings scope cacheKey value token ttlMs now sweptAt).WithinCeilings ceilings := by
  obtain heq | ⟨entry, -, hmeasured, hbucketed, heq⟩ := admit_cases ceilings l1 scope cacheKey value token ttlMs now sweptAt
  · rwa [heq]
  · rw [heq]
    exact evictOldest_within ceilings _
      (insertEntry_consistent (removeEntry_consistent (removeEntries_consistent h _) _) (swept_get?_none l1 sweptAt _)
        hmeasured hbucketed) le_rfl

end Admit

/-! ## Drops -/

theorem bumpKeyGeneration_entries (ceilings : ImmutableL1Ceilings) (l1 : ImmutableFileCacheL1) (cacheKey : Text) :
    (l1.bumpKeyGeneration ceilings cacheKey).entries = l1.entries ∧
      (l1.bumpKeyGeneration ceilings cacheKey).retainedBytes = l1.retainedBytes ∧
      (l1.bumpKeyGeneration ceilings cacheKey).storeKeysByCacheKey = l1.storeKeysByCacheKey ∧
      (l1.bumpKeyGeneration ceilings cacheKey).storeKeysByBucket = l1.storeKeysByBucket := by
  unfold bumpKeyGeneration
  simp only
  split <;> exact ⟨rfl, rfl, rfl, rfl⟩

theorem bumpKeyGeneration_fences (ceilings : ImmutableL1Ceilings) (l1 : ImmutableFileCacheL1) (cacheKey : Text) :
    l1.sweep < (l1.bumpKeyGeneration ceilings cacheKey).sweep ∨
      ((l1.bumpKeyGeneration ceilings cacheKey).sweep = l1.sweep ∧ ∀ k,
        (l1.bumpKeyGeneration ceilings cacheKey).generation k = if k = cacheKey then l1.generation k + 1 else l1.generation k) := by
  unfold bumpKeyGeneration
  simp only
  split
  · refine Or.inr ⟨rfl, fun k => ?_⟩
    rw [generation, OrdMap.get?_set]
    split
    · rename_i hk
      rw [hk, Option.getD_some]
    · rfl
  · exact Or.inl (Nat.lt_succ_self _)

theorem bumpKeyGeneration_consistent (h : l1.Consistent) (ceilings : ImmutableL1Ceilings)
    (cacheKey : Text) : (l1.bumpKeyGeneration ceilings cacheKey).Consistent := by
  obtain ⟨hentries, hbytes, hkeys, hbuckets⟩ := bumpKeyGeneration_entries ceilings l1 cacheKey
  constructor
  · rw [hbytes, hentries, h.bytes]
  · rw [hkeys, hentries]
    exact h.byCacheKey
  · rw [hbuckets, hentries]
    exact h.byBucket
  · rw [hkeys]
    exact h.cacheKeysTight
  · rw [hbuckets]
    exact h.bucketsTight
  · rw [hentries]
    exact h.measured
  · rw [hentries]
    exact h.bucketed

theorem dropKey_get? (h : l1.Consistent) {cacheKey j : Text} (hj : (l1.dropKey ceilings cacheKey).entries.get? j = some entry) :
    l1.entries.get? j = some entry ∧ entry.cacheKey ≠ cacheKey := by
  obtain ⟨hentries, -, hkeys, -⟩ := bumpKeyGeneration_entries ceilings l1 cacheKey
  simp only [dropKey, removeEntries_get?, hentries, hkeys] at hj
  split at hj
  · cases hj
  · rename_i hmem
    refine ⟨hj, fun hkey => hmem ?_⟩
    exact (h.byCacheKey j cacheKey).mpr ⟨entry, hj, hkey⟩

theorem colonSegments_prefix (segments : Nat) (t : Text) : colonSegments segments t <+: t := by
  fun_induction colonSegments segments t with
  | case1 => exact List.nil_prefix
  | case2 => exact List.prefix_rfl
  | case3 segments c rest ih1 ih2 =>
    refine List.cons_prefix_cons.mpr ⟨rfl, ?_⟩
    split
    · exact ih1
    · exact ih2

theorem dropPrefix_get? (h : l1.Consistent) {dropped j : Text}
    (hj : (l1.dropPrefix dropped).entries.get? j = some entry) :
    l1.entries.get? j = some entry ∧ ¬ dropped <+: entry.cacheKey := by
  unfold dropPrefix at hj
  simp only at hj
  split at hj
  · rename_i h0
    have hmem := (h.byCacheKey j entry.cacheKey).mpr ⟨entry, hj, rfl⟩
    rw [SetIndex.members, (OrdMap.size_eq_zero _).mp h0] at hmem
    cases hmem
  · rw [removeEntries_get?] at hj
    split at hj
    · cases hj
    · rename_i hmem
      refine ⟨hj, fun hdropped => hmem ?_⟩
      have hbucket := (h.byBucket j entry.bucketPrefix).mpr ⟨entry, hj, rfl⟩
      obtain ⟨held, hheld⟩ : ∃ held, l1.storeKeysByBucket.get? entry.bucketPrefix = some held := by
        rw [← Option.ne_none_iff_exists']
        intro hnone
        rw [SetIndex.members, hnone] at hbucket
        cases hbucket
      rw [SetIndex.members, hheld] at hbucket
      refine List.mem_flatMap.mpr ⟨_, (OrdMap.get?_eq_some _ _ _).mp hheld, ?_⟩
      have hstarts : entry.bucketPrefix <+: entry.cacheKey := by
        rw [h.bucketed j entry hj]
        exact colonSegments_prefix _ _
      unfold doomed
      obtain hpre | hpre := List.prefix_or_prefix_of_prefix hdropped hstarts
      · rw [if_pos (List.isPrefixOf_iff_prefix.mpr hpre)]
        exact hbucket
      · split
        · exact hbucket
        · rw [if_pos (List.isPrefixOf_iff_prefix.mpr hpre)]
          refine List.mem_filter.mpr ⟨hbucket, ?_⟩
          rw [show ({ l1 with sweep := l1.sweep + 1 } : ImmutableFileCacheL1).entries.get? j = some entry from hj]
          exact List.isPrefixOf_iff_prefix.mpr hdropped

theorem sweep_consistent (h : l1.Consistent) (sweep : Nat) :
    ({ l1 with sweep } : ImmutableFileCacheL1).Consistent :=
  ⟨h.bytes, h.byCacheKey, h.byBucket, h.cacheKeysTight, h.bucketsTight, h.measured, h.bucketed⟩

theorem dropPrefix_consistent (h : l1.Consistent) (dropped : Text) :
    (l1.dropPrefix dropped).Consistent := by
  unfold dropPrefix
  simp only
  split
  · exact sweep_consistent h _
  · exact removeEntries_consistent (sweep_consistent h _) _

theorem dropPrefix_within (dropped : Text)
    (h : l1.WithinCeilings ceilings) : (l1.dropPrefix dropped).WithinCeilings ceilings := by
  unfold dropPrefix
  simp only
  have hswept : ({ l1 with sweep := l1.sweep + 1 } : ImmutableFileCacheL1).WithinCeilings ceilings := ⟨h.size, h.bytes⟩
  split
  · exact hswept
  · exact removeEntries_within hswept _

theorem dropPrefix_shrinks (l1 : ImmutableFileCacheL1) (dropped : Text) :
    (l1.dropPrefix dropped).Shrinks { l1 with sweep := l1.sweep + 1 } := by
  unfold dropPrefix
  simp only
  split
  · exact .refl _
  · exact removeEntries_shrinks _ _

end ImmutableFileCacheL1

/-! ## Runs -/

def L1Call.Drops (cacheKey : Text) : L1Call → Prop
  | .dropKey dropped => dropped = cacheKey
  | .dropPrefix dropped => dropped <+: cacheKey
  | .clear => True
  | _ => False

def L1Call.scoped? : L1Call → Option (Text × Text)
  | .admitEntry scope cacheKey _ _ _ _ _ => some (scope, cacheKey)
  | .lookup scope cacheKey _ _ => some (scope, cacheKey)
  | _ => none

namespace L1Run

/-- No call after the `i`-th drops the key. -/
def IntactSince (log : List (L1Call × L1Reply)) (i : Nat) (cacheKey : Text) : Prop :=
  ∀ j call reply, i < j → log[j]? = some (call, reply) → ¬ call.Drops cacheKey

/-- The read that call `begun` began with the token was admitted by a later call, `admitted`, for `ttl`. -/
structure AdmittedBy (log : List (L1Call × L1Reply)) (scope cacheKey value : Text) (token : ImmutableL1ReadToken) (ttl : ℚ)
    (begun admitted : Nat) : Prop where
  begins : ∃ wallClockNow, log[begun]? = some (.beginRead cacheKey token.startedAtElapsedMs wallClockNow, .token token)
  later : begun < admitted
  admits : ∃ now sweptAt, log[admitted]? = some (.admitEntry scope cacheKey value begun (some ttl) now sweptAt, .void)

/-- The answer of the `t`-th call, a lookup, was admitted earlier under the same store key. It is young enough, and
since its read began no call has dropped its key. -/
def Served (log : List (L1Call × L1Reply)) (t : Nat) (storeKey value : Text) (maxAgeMs : Option ℚ) (now : ℚ) : Prop :=
  ∃ scope cacheKey token ttl begun admitted, scopedKey scope cacheKey = storeKey ∧
    AdmittedBy log scope cacheKey value token ttl begun admitted ∧ admitted < t ∧
    now - token.startedAtElapsedMs < ttl ∧ (∀ maxAge ∈ maxAgeMs, now - token.startedAtElapsedMs < maxAge) ∧
    ∀ j call reply, begun < j → j < t → log[j]? = some (call, reply) → ¬ call.Drops cacheKey

variable {w : L1Run} {call : L1Call}

theorem get?_record {l1 : ImmutableFileCacheL1} {reply : L1Reply} {i : Nat}
    {e : L1Call × L1Reply} (h : (w.record call l1 reply).log[i]? = some e) :
    w.log[i]? = some e ∨ (i = w.log.length ∧ e = (call, reply)) := by
  rw [record, List.getElem?_append] at h
  split at h
  · exact Or.inl h
  · rename_i hi
    obtain hlt | heq := Nat.lt_or_eq_of_le (not_lt.mp hi)
    · rw [List.getElem?_eq_none (by rw [List.length_singleton]; omega)] at h
      cases h
    · rw [← heq, Nat.sub_self] at h
      exact Or.inr ⟨heq.symm, (Option.some.inj h).symm⟩

theorem get?_record_of_log {i : Nat} {e : L1Call × L1Reply} (h : w.log[i]? = some e) (call : L1Call)
    (l1 : ImmutableFileCacheL1) (reply : L1Reply) : (w.record call l1 reply).log[i]? = some e := by
  rw [record, List.getElem?_append_left (List.getElem?_eq_some_iff.mp h).1, h]

theorem lt_length {i : Nat} {e : L1Call × L1Reply} (h : w.log[i]? = some e) : i < w.log.length :=
  (List.getElem?_eq_some_iff.mp h).1

variable {cacheKey : Text} {token : ImmutableL1ReadToken}

theorem AdmittedBy.record {scope value : Text} {ttl : ℚ}
    {begun admitted : Nat} (h : AdmittedBy w.log scope cacheKey value token ttl begun admitted) (call : L1Call)
    (l1 : ImmutableFileCacheL1) (reply : L1Reply) :
    AdmittedBy (w.record call l1 reply).log scope cacheKey value token ttl begun admitted := by
  obtain ⟨wallClockNow, hbegins⟩ := h.begins
  obtain ⟨now, sweptAt, hadmits⟩ := h.admits
  exact ⟨⟨wallClockNow, get?_record_of_log hbegins call l1 reply⟩, h.later,
    ⟨now, sweptAt, get?_record_of_log hadmits call l1 reply⟩⟩

theorem IntactSince.record {i : Nat} (h : IntactSince w.log i cacheKey)
    (hcall : ¬ call.Drops cacheKey) (l1 : ImmutableFileCacheL1) (reply : L1Reply) :
    IntactSince (w.record call l1 reply).log i cacheKey := by
  intro j c r hij hj
  obtain hj | ⟨-, hc⟩ := get?_record hj
  · exact h j c r hij hj
  · obtain ⟨rfl, rfl⟩ := Prod.mk.inj hc
    exact hcall

/-! ## What a call does -/

/-- The counters rise with what the call drops, and an entry that was there before or comes in is not dropped. -/
structure Effect (ceilings : ImmutableL1Ceilings) (w : L1Run) (call : L1Call) (l1 : ImmutableFileCacheL1) (reply : L1Reply) :
    Prop where
  consistent : l1.Consistent
  within : w.l1.WithinCeilings ceilings → l1.WithinCeilings ceilings
  fences : w.l1.sweep < l1.sweep ∨ (l1.sweep = w.l1.sweep ∧ ∀ k, w.l1.generation k ≤ l1.generation k ∧
    (call.Drops k → w.l1.generation k < l1.generation k))
  entries : ∀ storeKey entry, l1.entries.get? storeKey = some entry →
    (w.l1.entries.get? storeKey = some entry ∧ ¬ call.Drops entry.cacheKey) ∨
      ∃ scope cacheKey value read ttlMs now sweptAt token, call = .admitEntry scope cacheKey value read ttlMs now sweptAt ∧
        reply = .void ∧ w.tokenOf read cacheKey = some token ∧ storeKey = scopedKey scope cacheKey ∧
        w.l1.Admitted cacheKey value token ttlMs entry
  begins : ∀ cacheKey elapsedNow wallClockNow token, call = .beginRead cacheKey elapsedNow wallClockNow →
    reply = .token token → token = w.l1.beginRead cacheKey elapsedNow wallClockNow
  hits : ∀ scope cacheKey maxAgeMs now value, call = .lookup scope cacheKey maxAgeMs now → reply = .value (some value) →
    ∃ entry, w.l1.entries.get? (scopedKey scope cacheKey) = some entry ∧ entry.value = value ∧
      now < entry.expiresAtElapsedMs ∧ ∀ maxAge ∈ maxAgeMs, now - entry.readStartedAtElapsedMs < maxAge

theorem fences_of_eq {l1 m : ImmutableFileCacheL1} (hgen : l1.keyGenerations = m.keyGenerations)
    (hsweep : l1.sweep = m.sweep) (hcall : ∀ k, ¬ call.Drops k) :
    m.sweep < l1.sweep ∨ (l1.sweep = m.sweep ∧ ∀ k, m.generation k ≤ l1.generation k ∧
      (call.Drops k → m.generation k < l1.generation k)) := by
  refine Or.inr ⟨hsweep, fun k => ⟨?_, fun h => absurd h (hcall k)⟩⟩
  rw [ImmutableFileCacheL1.generation, ImmutableFileCacheL1.generation, hgen]

open ImmutableFileCacheL1 in
theorem step_effect {ceilings : ImmutableL1Ceilings} {w' : L1Run} (h : w.l1.Consistent)
    (hs : w.step ceilings call = some w') :
    ∃ l1 reply, w' = w.record call l1 reply ∧ Effect ceilings w call l1 reply := by
  cases call with
  | beginRead cacheKey elapsedNow wallClockNow =>
    obtain rfl := Option.some.inj hs
    refine ⟨_, _, rfl, h, id, fences_of_eq rfl rfl fun _ => id, fun _ _ he => Or.inl ⟨he, id⟩, ?_, fun _ _ _ _ _ hc => (nomatch hc)⟩
    intro _ _ _ token hc hr
    cases hc
    exact (L1Reply.token.inj hr).symm
  | admitEntry scope cacheKey value read ttlMs now sweptAt =>
    obtain ⟨token, htoken, rfl⟩ := Option.map_eq_some_iff.mp hs
    obtain ⟨hgen, hsweep⟩ := admit_fences ceilings w.l1 scope cacheKey value token ttlMs now sweptAt
    refine ⟨_, _, rfl, admit_consistent _ _ _ _ _ _ _ _ _ h, admit_within _ _ _ _ _ _ _ _ _ h,
      fences_of_eq hgen hsweep fun _ => id, ?_, fun _ _ _ _ hc => (nomatch hc), fun _ _ _ _ _ hc => (nomatch hc)⟩
    intro storeKey entry he
    obtain hold | ⟨hj, hadmitted⟩ := admit_get? ceilings w.l1 scope cacheKey value token ttlMs now sweptAt he
    · exact Or.inl ⟨hold, id⟩
    · exact Or.inr ⟨scope, cacheKey, value, read, ttlMs, now, sweptAt, token, rfl, rfl, htoken, hj, hadmitted⟩
  | lookup scope cacheKey maxAgeMs now =>
    have hshrinks := lookup_shrinks w.l1 scope cacheKey maxAgeMs now
    refine ⟨(w.l1.lookup scope cacheKey maxAgeMs now).1, .value (w.l1.lookup scope cacheKey maxAgeMs now).2,
      (Option.some.inj hs).symm, lookup_consistent _ _ _ _ _ h, lookup_within _ _ _ _ _,
      fences_of_eq hshrinks.keyGenerations hshrinks.sweep fun _ => id,
      fun j e he => Or.inl ⟨hshrinks.entries j e he, id⟩, fun _ _ _ _ hc => (nomatch hc), ?_⟩
    intro _ _ _ _ value hc hr
    cases hc
    exact lookup_hit _ _ _ _ _ (L1Reply.value.inj hr)
  | dropKey cacheKey =>
    obtain rfl := Option.some.inj hs
    have hbumped := bumpKeyGeneration_consistent h ceilings cacheKey
    have hshrinks := removeEntries_shrinks (w.l1.bumpKeyGeneration ceilings cacheKey)
      (SetIndex.members (w.l1.bumpKeyGeneration ceilings cacheKey).storeKeysByCacheKey cacheKey)
    obtain ⟨hentries, hbytes, -, -⟩ := bumpKeyGeneration_entries ceilings w.l1 cacheKey
    refine ⟨_, _, rfl, removeEntries_consistent hbumped _, ?_, ?_, ?_,
      fun _ _ _ _ hc => (nomatch hc), fun _ _ _ _ _ hc => (nomatch hc)⟩
    · intro hw
      have hbumpedWithin : (w.l1.bumpKeyGeneration ceilings cacheKey).WithinCeilings ceilings :=
        ⟨hentries ▸ hw.size, hbytes ▸ hw.bytes⟩
      exact removeEntries_within hbumpedWithin _
    · have hgen : ∀ k, (w.l1.dropKey ceilings cacheKey).generation k =
          (w.l1.bumpKeyGeneration ceilings cacheKey).generation k := by
        intro k
        rw [generation, dropKey, hshrinks.keyGenerations, generation]
      obtain hsweep | ⟨hsweep, hbump⟩ := bumpKeyGeneration_fences ceilings w.l1 cacheKey
      · exact Or.inl (hshrinks.sweep ▸ hsweep)
      · refine Or.inr ⟨hshrinks.sweep.trans hsweep, fun k => ?_⟩
        rw [hgen, hbump]
        constructor
        · split <;> omega
        · intro hk
          rw [if_pos (Eq.symm hk)]
          exact Nat.lt_succ_self _
    · intro j e he
      obtain ⟨hold, hne⟩ := dropKey_get? h he
      exact Or.inl ⟨hold, fun hk => hne (Eq.symm hk)⟩
  | dropPrefix dropped =>
    obtain rfl := Option.some.inj hs
    have hshrinks := dropPrefix_shrinks w.l1 dropped
    refine ⟨_, _, rfl, dropPrefix_consistent h dropped, dropPrefix_within dropped,
      Or.inl (hshrinks.sweep ▸ Nat.lt_succ_self _), fun j e he => Or.inl (dropPrefix_get? h he),
      fun _ _ _ _ hc => (nomatch hc), fun _ _ _ _ _ hc => (nomatch hc)⟩
  | evictExpired now =>
    obtain rfl := Option.some.inj hs
    have hshrinks := removeEntries_shrinks w.l1 (w.l1.expiredKeys now)
    exact ⟨_, _, rfl, removeEntries_consistent h _, fun hw => removeEntries_within hw _,
      fences_of_eq hshrinks.keyGenerations hshrinks.sweep fun _ => id,
      fun j e he => Or.inl ⟨hshrinks.entries j e he, id⟩, fun _ _ _ _ hc => (nomatch hc), fun _ _ _ _ _ hc => (nomatch hc)⟩
  | clear =>
    obtain rfl := Option.some.inj hs
    exact ⟨_, _, rfl, sweep_consistent create_consistent _, fun _ => ⟨Nat.zero_le _, Int.natCast_nonneg _⟩,
      Or.inl (Nat.lt_succ_self _), fun _ _ he => (nomatch he), fun _ _ _ _ hc => (nomatch hc), fun _ _ _ _ _ hc => (nomatch hc)⟩

/-! ## Every run -/

/-- While the counters are those of its token, nothing has dropped the key since the read began. -/
def Fenced (w : L1Run) (begun : Nat) (cacheKey : Text) (token : ImmutableL1ReadToken) : Prop :=
  token.sweep ≤ w.l1.sweep ∧ (token.sweep = w.l1.sweep → token.key ≤ w.l1.generation cacheKey ∧
    (token.key = w.l1.generation cacheKey → IntactSince w.log begun cacheKey))

def Sourced (w : L1Run) (storeKey : Text) (entry : ImmutableL1Entry) : Prop :=
  ∃ scope token ttl begun admitted, storeKey = scopedKey scope entry.cacheKey ∧
    AdmittedBy w.log scope entry.cacheKey entry.value token ttl begun admitted ∧
    IntactSince w.log begun entry.cacheKey ∧ entry.readStartedAtElapsedMs = token.startedAtElapsedMs ∧
    entry.expiresAtElapsedMs = token.startedAtElapsedMs + ttl

structure Inv (ceilings : ImmutableL1Ceilings) (w : L1Run) : Prop where
  consistent : w.l1.Consistent
  within : w.l1.WithinCeilings ceilings
  fenced : ∀ begun cacheKey elapsedNow wallClockNow token,
    w.log[begun]? = some (.beginRead cacheKey elapsedNow wallClockNow, .token token) →
    elapsedNow = token.startedAtElapsedMs ∧ w.Fenced begun cacheKey token
  sourced : ∀ storeKey entry, w.l1.entries.get? storeKey = some entry → w.Sourced storeKey entry
  served : ∀ t scope cacheKey maxAgeMs now value,
    w.log[t]? = some (.lookup scope cacheKey maxAgeMs now, .value (some value)) →
    Served w.log t (scopedKey scope cacheKey) value maxAgeMs now

theorem initial_inv (ceilings : ImmutableL1Ceilings) : initial.Inv ceilings where
  consistent := ImmutableFileCacheL1.create_consistent
  within := ⟨Nat.zero_le _, Int.natCast_nonneg _⟩
  fenced := by
    intro begun cacheKey elapsedNow wallClockNow token h
    cases h
  sourced := by
    intro storeKey entry h
    cases h
  served := by
    intro t scope cacheKey maxAgeMs now value h
    cases h

section Step

variable {ceilings : ImmutableL1Ceilings} {w : L1Run} {call : L1Call} {l1 : ImmutableFileCacheL1} {reply : L1Reply}

theorem Fenced.record (he : Effect ceilings w call l1 reply) {begun : Nat}
    (h : w.Fenced begun cacheKey token) : (w.record call l1 reply).Fenced begun cacheKey token := by
  obtain ⟨hle, hsame⟩ := h
  obtain hsweep | ⟨hsweep, hgen⟩ := he.fences
  · refine ⟨hle.trans hsweep.le, fun heq => ?_⟩
    exact absurd heq (Nat.ne_of_lt (hle.trans_lt hsweep))
  · refine ⟨hle.trans hsweep.ge, fun heq => ?_⟩
    obtain ⟨hkey, hintact⟩ := hsame (heq.trans hsweep)
    obtain ⟨hmono, hdrop⟩ := hgen cacheKey
    refine ⟨hkey.trans hmono, fun hkeyEq => ?_⟩
    have hnot : ¬ call.Drops cacheKey := fun hd => Nat.ne_of_lt (hkey.trans_lt (hdrop hd)) hkeyEq
    exact (hintact (le_antisymm hkey (hmono.trans_eq hkeyEq.symm))).record hnot l1 reply

theorem fenced_step (hi : w.Inv ceilings) (he : Effect ceilings w call l1 reply) {begun : Nat}
    {elapsedNow wallClockNow : ℚ}
    (h : (w.record call l1 reply).log[begun]? = some (.beginRead cacheKey elapsedNow wallClockNow, .token token)) :
    elapsedNow = token.startedAtElapsedMs ∧ (w.record call l1 reply).Fenced begun cacheKey token := by
  obtain hold | ⟨rfl, hnew⟩ := get?_record h
  · obtain ⟨hstarted, hfenced⟩ := hi.fenced _ _ _ _ _ hold
    exact ⟨hstarted, hfenced.record he⟩
  · obtain ⟨rfl, rfl⟩ := Prod.mk.inj hnew
    obtain rfl := he.begins _ _ _ _ rfl rfl
    refine ⟨rfl, Fenced.record he ⟨le_rfl, fun _ => ⟨le_rfl, fun _ => ?_⟩⟩⟩
    intro j c r hj hget
    exact absurd hj (Nat.lt_asymm (lt_length hget))

theorem tokenOf_eq_some {read : Nat} (h : w.tokenOf read cacheKey = some token) :
    ∃ elapsedNow wallClockNow, w.log[read]? = some (.beginRead cacheKey elapsedNow wallClockNow, .token token) := by
  unfold tokenOf at h
  split at h
  · rename_i begun elapsedNow wallClockNow held hlog
    split at h
    · rename_i hkey
      obtain rfl := Option.some.inj h
      exact ⟨elapsedNow, wallClockNow, hkey ▸ hlog⟩
    · cases h
  · cases h

theorem sourced_step (hi : w.Inv ceilings) (he : Effect ceilings w call l1 reply) {storeKey : Text} {entry : ImmutableL1Entry}
    (h : l1.entries.get? storeKey = some entry) : (w.record call l1 reply).Sourced storeKey entry := by
  obtain ⟨hold, hnot⟩ | ⟨scope, cacheKey, value, read, ttlMs, now, sweptAt, token, rfl, rfl, htoken, rfl, hadmitted⟩ :=
    he.entries storeKey entry h
  · obtain ⟨scope, token, ttl, begun, admitted, hkey, hby, hintact, hstarted, hexpires⟩ := hi.sourced storeKey entry hold
    exact ⟨scope, token, ttl, begun, admitted, hkey, hby.record call l1 reply, hintact.record hnot l1 reply, hstarted,
      hexpires⟩
  · obtain ⟨elapsedNow, wallClockNow, hbegun⟩ := tokenOf_eq_some htoken
    obtain ⟨ttl, rfl, hsweep, hgen, rfl, rfl, hstarted, hexpires⟩ := hadmitted
    obtain ⟨rfl, -, hfenced⟩ := hi.fenced _ _ _ _ _ hbegun
    have hintact := (hfenced hsweep).2 hgen
    refine ⟨scope, token, ttl, read, w.log.length, rfl, ⟨⟨wallClockNow, get?_record_of_log hbegun _ _ _⟩, lt_length hbegun,
      ⟨now, sweptAt, ?_⟩⟩, hintact.record id _ _, hstarted, hexpires⟩
    rw [record, List.getElem?_append_right le_rfl, Nat.sub_self]
    rfl

theorem served_step (hi : w.Inv ceilings) (he : Effect ceilings w call l1 reply) {t : Nat} {scope value : Text}
    {maxAgeMs : Option ℚ} {now : ℚ}
    (h : (w.record call l1 reply).log[t]? = some (.lookup scope cacheKey maxAgeMs now, .value (some value))) :
    Served (w.record call l1 reply).log t (scopedKey scope cacheKey) value maxAgeMs now := by
  obtain hold | ⟨rfl, hnew⟩ := get?_record h
  · obtain ⟨scope', cacheKey', token, ttl, begun, admitted, hkey, hby, hlt, httl, hage, hintact⟩ :=
      hi.served _ _ _ _ _ _ hold
    refine ⟨scope', cacheKey', token, ttl, begun, admitted, hkey, hby.record call l1 reply, hlt, httl, hage, ?_⟩
    intro j c r hbj hjt hget
    obtain hget | ⟨rfl, -⟩ := get?_record hget
    · exact hintact j c r hbj hjt hget
    · exact absurd hjt (Nat.lt_asymm (lt_length hold))
  · obtain ⟨rfl, rfl⟩ := Prod.mk.inj hnew
    obtain ⟨entry, hentry, rfl, hexpires, hage⟩ := he.hits _ _ _ _ _ rfl rfl
    obtain ⟨scope', token, ttl, begun, admitted, hkey, hby, hintact, hstarted, hexpiry⟩ := hi.sourced _ _ hentry
    obtain ⟨_, _, hadmits⟩ := hby.admits
    rw [hexpiry] at hexpires
    refine ⟨scope', entry.cacheKey, token, ttl, begun, admitted, hkey.symm, hby.record _ _ _, lt_length hadmits,
      sub_lt_iff_lt_add'.mpr hexpires, hstarted ▸ hage, ?_⟩
    intro j c r hbj hjt hget
    obtain hget | ⟨rfl, -⟩ := get?_record hget
    · exact hintact j c r hbj hget
    · exact absurd hjt (Nat.lt_irrefl _)

theorem step_inv {w' : L1Run} (hi : w.Inv ceilings) (hs : w.step ceilings call = some w') : w'.Inv ceilings := by
  obtain ⟨l1, reply, rfl, he⟩ := step_effect hi.consistent hs
  exact ⟨he.consistent, he.within hi.within, fun _ _ _ _ _ h => fenced_step hi he h, fun _ _ h => sourced_step hi he h,
    fun _ _ _ _ _ _ h => served_step hi he h⟩

end Step

def Steps (ceilings : ImmutableL1Ceilings) (w : L1Run) (call : L1Call) (w' : L1Run) : Prop := w.step ceilings call = some w'

def Unambiguous (log : List (L1Call × L1Reply)) : Prop :=
  ∀ e ∈ log, ∀ f ∈ log, ∀ scope cacheKey scope' cacheKey', e.1.scoped? = some (scope, cacheKey) →
    f.1.scoped? = some (scope', cacheKey') → scopedKey scope cacheKey = scopedKey scope' cacheKey' →
    scope = scope' ∧ cacheKey = cacheKey'

theorem unambiguous_of_no_separator {log : List (L1Call × L1Reply)}
    (h : ∀ e ∈ log, ∀ filed ∈ e.1.scoped?, scopeSeparator ∉ filed.2) :
    Unambiguous log := by
  intro e he f hf scope cacheKey scope' cacheKey' hscope hscope' heq
  have hsplit : ∀ {s s' k k' : Text}, scopeSeparator ∉ k → scopeSeparator ∉ k' →
      s ++ scopeSeparator :: k = s' ++ scopeSeparator :: k' → s = s' ∧ k = k' := by
    intro s s' k k' hk hk' hs
    obtain ⟨a, rfl, ha⟩ | ⟨a, rfl, ha⟩ := List.append_eq_append_iff.mp hs
    all_goals
      cases a with
      | nil => simpa [eq_comm] using ha
      | cons c a =>
        obtain ⟨rfl, rfl⟩ := List.cons.inj ha
        simp_all
  exact hsplit (h e he _ hscope) (h f hf _ hscope') heq

/-- In every run, the byte total and the indexes are those of the entries, the ceilings hold, and a value that
a lookup answers was admitted for its own scope and key, from a read that is younger than the lifetime and the
asked age and since whose begin nothing has dropped the key. -/
theorem lookup_serves_admitted (ceilings : ImmutableL1Ceilings) {calls : List L1Call} {w : L1Run}
    (hrun : Run (Steps ceilings) initial calls w) (hscopes : Unambiguous w.log) :
    (w.l1.Consistent ∧ w.l1.WithinCeilings ceilings) ∧
      ∀ t scope cacheKey maxAgeMs now value,
        w.log[t]? = some (.lookup scope cacheKey maxAgeMs now, .value (some value)) →
        ∃ token ttl begun admitted, AdmittedBy w.log scope cacheKey value token ttl begun admitted ∧ admitted < t ∧
          now - token.startedAtElapsedMs < ttl ∧ (∀ maxAge ∈ maxAgeMs, now - token.startedAtElapsedMs < maxAge) ∧
          ∀ j call reply, begun < j → j < t → w.log[j]? = some (call, reply) → ¬ call.Drops cacheKey := by
  have hi := hrun.invariant (Inv ceilings) (initial_inv ceilings) fun _ _ _ hi hs => step_inv hi hs
  refine ⟨⟨hi.consistent, hi.within⟩, fun t scope cacheKey maxAgeMs now value ht => ?_⟩
  obtain ⟨scope', cacheKey', token, ttl, begun, admitted, hkey, hby, hlt, httl, hage, hintact⟩ := hi.served _ _ _ _ _ _ ht
  obtain ⟨_, _, hadmits⟩ := hby.admits
  obtain ⟨rfl, rfl⟩ := hscopes _ (List.mem_of_getElem? hadmits) _ (List.mem_of_getElem? ht) _ _ _ _ rfl rfl hkey
  exact ⟨token, ttl, begun, admitted, hby, hlt, httl, hage, hintact⟩

/-- A read of `k` begun at 0 and admitted for 5 is served at 4, another key having been dropped. -/
theorem lookup_serves_admitted_hit :
    let ceilings : ImmutableL1Ceilings := ⟨1, 8, 8, by decide⟩
    let calls : List L1Call := [.beginRead (.of "k") 0 0, .dropKey (.of "j"), .admitEntry (.of "s") (.of "k") (.of "v") 0 (some 5) 2 2,
      .lookup (.of "s") (.of "k") (some 10) 4]
    ∃ w, Run (Steps ceilings) initial calls w ∧
      w.log[3]? = some (.lookup (.of "s") (.of "k") (some 10) 4, .value (some (.of "v"))) ∧
      ∃ token ttl begun admitted, AdmittedBy w.log (.of "s") (.of "k") (.of "v") token ttl begun admitted ∧
        4 - token.startedAtElapsedMs < ttl ∧ ∀ j call reply, begun < j → j < 3 → w.log[j]? = some (call, reply) →
          ¬ call.Drops (.of "k") := by
  intro ceilings calls
  have hrun : ∃ w, Run (Steps ceilings) initial calls w ∧
      w.log[3]? = some (.lookup (.of "s") (.of "k") (some 10) 4, .value (some (.of "v"))) ∧
      ∀ e ∈ w.log, ∀ filed ∈ e.1.scoped?, scopeSeparator ∉ filed.2 :=
    ⟨_, .cons rfl (.cons rfl (.cons rfl (.cons rfl .nil))), by decide +kernel, by decide⟩
  obtain ⟨w, hrun, hlog, hkeys⟩ := hrun
  obtain ⟨token, ttl, begun, admitted, hby, -, httl, -, hintact⟩ :=
    (lookup_serves_admitted ceilings hrun (unambiguous_of_no_separator hkeys)).2 3 _ _ _ _ _ hlog
  exact ⟨w, hrun, hlog, token, ttl, begun, admitted, hby, httl, hintact⟩

end L1Run

end Veryfront.Cache
