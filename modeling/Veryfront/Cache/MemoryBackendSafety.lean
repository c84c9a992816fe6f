import Mathlib.Algebra.BigOperators.Group.List.Basic
import Mathlib.Algebra.GroupWithZero.Nat
import Veryfront.Cache.MemoryBackend
import Veryfront.Lib.Fuel

/-!
# The cache in memory stays within its limits

The byte counter is the sum of the sizes of what is stored, whatever is called. The eviction loop ends exactly when it
does not come to an entry under the empty key while the store is still over a limit.
-/

namespace Veryfront.Cache.MemoryCacheBackend

open Lib

/-! ## The counter -/

def totalSize (store : OrdMap Text MemoryEntry) : Nat := (store.values.map MemoryEntry.sizeBytes).sum

/-- The counter is right, and the store is within its limits. -/
structure Bounded (backend : MemoryCacheBackend) : Prop where
  accounted : backend.currentSizeBytes = totalSize backend.store
  entries : backend.store.size ≤ backend.maxEntries
  bytes : backend.currentSizeBytes ≤ backend.maxSizeBytes

variable {store : OrdMap Text MemoryEntry} {key : Text} {entry : MemoryEntry}

theorem totalSize_erase
    (h : store.get? key = some entry) : totalSize store = entry.sizeBytes + totalSize (store.erase key) := by
  have hperm := (OrdMap.values_erase_perm h).map MemoryEntry.sizeBytes
  exact hperm.sum_eq

theorem totalSize_set (h : store.get? key = none) (entry : MemoryEntry) :
    totalSize (store.set key entry) = entry.sizeBytes + totalSize store := by
  have hperm := (OrdMap.values_set_perm store key entry).map MemoryEntry.sizeBytes
  rw [OrdMap.erase_of_get?_none h] at hperm
  exact hperm.sum_eq

variable {backend : MemoryCacheBackend}

structure SameLimits (backend after : MemoryCacheBackend) : Prop where
  maxEntries : after.maxEntries = backend.maxEntries
  maxSizeBytes : after.maxSizeBytes = backend.maxSizeBytes

theorem SameLimits.refl (backend : MemoryCacheBackend) : SameLimits backend backend := ⟨rfl, rfl⟩

theorem SameLimits.trans {after last : MemoryCacheBackend} (h : SameLimits backend after) (h' : SameLimits after last) :
    SameLimits backend last :=
  ⟨h'.maxEntries.trans h.maxEntries, h'.maxSizeBytes.trans h.maxSizeBytes⟩

theorem sameLimits_delete (key : Text) (backend : MemoryCacheBackend) : SameLimits backend (backend.delete key) := by
  unfold delete
  split <;> exact ⟨rfl, rfl⟩

theorem store_delete (key : Text) (backend : MemoryCacheBackend) : (backend.delete key).store = backend.store.erase key := by
  unfold delete
  split
  · rename_i hnone
    exact (OrdMap.erase_of_get?_none hnone).symm
  · rfl

theorem size_erase_le (store : OrdMap Text MemoryEntry) (key : Text) : (store.erase key).size ≤ store.size := by
  rw [OrdMap.size_erase]
  split <;> omega

theorem accounted_delete (h : backend.currentSizeBytes = totalSize backend.store) (key : Text) :
    (backend.delete key).currentSizeBytes = totalSize (backend.delete key).store := by
  unfold delete
  split
  · exact h
  · rename_i entry hentry
    have hsum := totalSize_erase hentry
    simp only
    omega

theorem currentSizeBytes_delete_le (key : Text) (backend : MemoryCacheBackend) :
    (backend.delete key).currentSizeBytes ≤ backend.currentSizeBytes := by
  unfold delete
  split
  · exact Int.le_refl _
  · simp only
    omega

theorem Bounded.delete (h : Bounded backend) (key : Text) : Bounded (backend.delete key) where
  accounted := accounted_delete h.accounted key
  entries := by
    rw [store_delete, (sameLimits_delete key backend).maxEntries]
    exact Nat.le_trans (size_erase_le _ _) h.entries
  bytes := by
    rw [(sameLimits_delete key backend).maxSizeBytes]
    exact Int.le_trans (currentSizeBytes_delete_le key backend) h.bytes

theorem bounded_create (maxEntries maxSizeBytes : Nat) : Bounded (create maxEntries maxSizeBytes) :=
  ⟨rfl, Nat.zero_le _, Int.natCast_nonneg _⟩

/-! ## Eviction -/

def fromEmptyKey (entries : List (Text × MemoryEntry)) : List (Text × MemoryEntry) := entries.dropWhile fun e => e.1 ≠ []

def sizeOf (entries : List (Text × MemoryEntry)) : Nat := (entries.map fun e => e.2.sizeBytes).sum

/-- With all older entries gone, the one under the empty key and what is younger are still over a limit. -/
def Stuck (backend : MemoryCacheBackend) (entrySize : Nat) : Prop :=
  let rest := fromEmptyKey backend.store.entries
  rest ≠ [] ∧ (backend.maxEntries ≤ rest.length ∨ backend.maxSizeBytes < sizeOf rest + entrySize)

theorem totalSize_eq (store : OrdMap Text MemoryEntry) : totalSize store = sizeOf store.entries := by
  simp [totalSize, sizeOf, OrdMap.values, Function.comp_def]

variable {rest : List (Text × MemoryEntry)}

theorem erase_head
    (h : store.entries = (key, entry) :: rest) : (store.erase key).entries = rest ∧ store.get? key = some entry := by
  have hnodup := store.nodup
  rw [h] at hnodup
  have hnew : ∀ e ∈ rest, e.1 ≠ key := fun e he heq =>
    (List.nodup_cons.mp hnodup).1 (List.mem_map.mpr ⟨e, he, heq⟩)
  refine ⟨?_, by simp [OrdMap.get?, h]⟩
  show store.entries.filter (fun e => e.1 ≠ key) = rest
  rw [h, List.filter_cons_of_neg (by simp)]
  exact List.filter_eq_self.mpr fun e he => by simpa using hnew e he

theorem evictOldest_cons
    (h : backend.store.entries = (key, entry) :: rest) :
    backend.evictOldest = if key = [] then backend else backend.delete key := by
  simp [evictOldest, OrdMap.keys, h]

theorem overLimits_iff (h : backend.currentSizeBytes = totalSize backend.store) (entrySize : Nat) :
    backend.overLimits entrySize = true ↔ backend.store.entries ≠ [] ∧
      (backend.maxEntries ≤ backend.store.entries.length ∨
        backend.maxSizeBytes < sizeOf backend.store.entries + entrySize) := by
  rw [totalSize_eq] at h
  simp only [overLimits, Bool.and_eq_true, decide_eq_true_eq, Bool.or_eq_true]
  simp only [OrdMap.size, h, List.length_pos_iff]
  have hcast : (backend.maxSizeBytes : Int) < sizeOf backend.store.entries + entrySize ↔
      backend.maxSizeBytes < sizeOf backend.store.entries + entrySize := by omega
  rw [hcast]

theorem sizeOf_fromEmptyKey_le (entries : List (Text × MemoryEntry)) : sizeOf (fromEmptyKey entries) ≤ sizeOf entries := by
  obtain ⟨before, h⟩ := List.dropWhile_suffix (l := entries) fun e => decide (e.1 ≠ [])
  have hsum := congrArg sizeOf h
  simp only [sizeOf, List.map_append, List.sum_append] at hsum
  simp only [sizeOf, fromEmptyKey]
  omega

variable {entrySize : Nat}

theorem Stuck.overLimits (h : backend.currentSizeBytes = totalSize backend.store)
    (hstuck : backend.Stuck entrySize) : backend.overLimits entrySize = true := by
  obtain ⟨hne, hover⟩ := hstuck
  have hlength := (List.dropWhile_suffix (l := backend.store.entries) fun e => decide (e.1 ≠ [])).length_le
  have hsize := sizeOf_fromEmptyKey_le backend.store.entries
  refine (overLimits_iff h entrySize).mpr ⟨fun hnil => hne (by rw [hnil]; rfl), ?_⟩
  rcases hover with hover | hover
  · exact .inl (Nat.le_trans hover hlength)
  · exact .inr (by omega)

theorem fromEmptyKey_cons (key : Text) (entry : MemoryEntry) (rest : List (Text × MemoryEntry)) :
    fromEmptyKey ((key, entry) :: rest) = if key = [] then (key, entry) :: rest else fromEmptyKey rest := by
  by_cases hkey : key = []
  · simp [fromEmptyKey, hkey]
  · simp [fromEmptyKey, hkey]

theorem stuck_evictOldest
    (h : backend.store.entries = (key, entry) :: rest) (hkey : key ≠ []) (entrySize : Nat) :
    backend.evictOldest.Stuck entrySize ↔ backend.Stuck entrySize := by
  rw [evictOldest_cons h, if_neg hkey]
  have hlimits := sameLimits_delete key backend
  simp only [Stuck, store_delete, (erase_head h).1, h, fromEmptyKey_cons, if_neg hkey, hlimits.maxEntries,
    hlimits.maxSizeBytes]

theorem evictWhileOver_of_stuck (fuel : Nat) (h : backend.currentSizeBytes = totalSize backend.store)
    (hstuck : backend.Stuck entrySize) : evictWhileOver entrySize fuel backend = none := by
  induction fuel generalizing backend with
  | zero => rfl
  | succ fuel ih =>
    rw [evictWhileOver, if_pos (hstuck.overLimits h)]
    obtain ⟨hne, hover⟩ := (overLimits_iff h entrySize).mp (hstuck.overLimits h)
    obtain ⟨⟨key, entry⟩, rest, hentries⟩ := List.exists_cons_of_ne_nil hne
    by_cases hkey : key = []
    · rw [evictOldest_cons hentries, if_pos hkey]
      exact ih h hstuck
    · refine ih ?_ ((stuck_evictOldest hentries hkey entrySize).mpr hstuck)
      rw [evictOldest_cons hentries, if_neg hkey]
      exact accounted_delete h key

/-- What the loop leaves: there is room, and nothing new. -/
structure MadeRoom (backend : MemoryCacheBackend) (entrySize : Nat) (room : MemoryCacheBackend) : Prop where
  accounted : room.currentSizeBytes = totalSize room.store
  fits : room.overLimits entrySize = false
  limits : SameLimits backend room
  subset : ∀ key, backend.store.get? key = none → room.store.get? key = none

theorem get?_delete_none (backend : MemoryCacheBackend) (other : Text) (h : backend.store.get? key = none) :
    (backend.delete other).store.get? key = none := by
  rw [store_delete, OrdMap.get?_erase, h]
  split <;> rfl

theorem madeRoom_of_evictWhileOver (fuel : Nat) (h : backend.currentSizeBytes = totalSize backend.store)
    {room : MemoryCacheBackend} (hrun : evictWhileOver entrySize fuel backend = some room) :
    MadeRoom backend entrySize room := by
  induction fuel generalizing backend with
  | zero => cases hrun
  | succ fuel ih =>
    rw [evictWhileOver] at hrun
    split at hrun
    · rename_i hover
      obtain ⟨hne, -⟩ := (overLimits_iff h entrySize).mp hover
      obtain ⟨⟨key, entry⟩, rest, hentries⟩ := List.exists_cons_of_ne_nil hne
      rw [evictOldest_cons hentries] at hrun
      split at hrun
      · exact ih h hrun
      · obtain ⟨haccounted, hfits, hlimits, hsubset⟩ := ih (accounted_delete h key) hrun
        exact ⟨haccounted, hfits, (sameLimits_delete key backend).trans hlimits,
          fun k hk => hsubset k (get?_delete_none backend key hk)⟩
    · rename_i hfits
      obtain rfl := Option.some.inj hrun
      exact ⟨h, Bool.not_eq_true _ ▸ hfits, .refl _, fun _ => id⟩

variable {fuel : Nat}

theorem evictWhileOver_isSome (h : backend.currentSizeBytes = totalSize backend.store)
    (hfree : ¬ backend.Stuck entrySize) (hfuel : backend.store.entries.length < fuel) :
    (evictWhileOver entrySize fuel backend).isSome = true := by
  induction fuel generalizing backend with
  | zero => exact absurd hfuel (Nat.not_lt_zero _)
  | succ fuel ih =>
    rw [evictWhileOver]
    split
    · rename_i hover
      obtain ⟨hne, hlimit⟩ := (overLimits_iff h entrySize).mp hover
      obtain ⟨⟨key, entry⟩, rest, hentries⟩ := List.exists_cons_of_ne_nil hne
      have hkey : key ≠ [] := by
        rintro rfl
        refine hfree ⟨?_, ?_⟩
        · simp [hentries, fromEmptyKey_cons]
        · simpa [hentries, fromEmptyKey_cons] using hlimit
      refine ih ?_ (fun hstuck => hfree ((stuck_evictOldest hentries hkey entrySize).mp hstuck)) ?_
      · rw [evictOldest_cons hentries, if_neg hkey]
        exact accounted_delete h key
      · rw [evictOldest_cons hentries, if_neg hkey, store_delete, (erase_head hentries).1]
        rw [hentries, List.length_cons] at hfuel
        omega
    · rfl

theorem evictWhileOver_mono {fuel' : Nat} (hle : fuel ≤ fuel') {room : MemoryCacheBackend}
    (h : evictWhileOver entrySize fuel backend = some room) : evictWhileOver entrySize fuel' backend = some room := by
  induction fuel generalizing backend fuel' with
  | zero => cases h
  | succ fuel ih =>
    obtain ⟨more, rfl⟩ := Nat.exists_eq_add_of_le' hle
    rw [evictWhileOver] at h
    rw [← Nat.add_assoc, evictWhileOver]
    split at h
    · rename_i hover
      rw [if_pos hover]
      exact ih (by omega) h
    · rename_i hfits
      rw [if_neg hfits]
      exact h

/-! ## Writing -/

theorem MadeRoom.insert {room : MemoryCacheBackend}
    (hroom : MadeRoom (backend.delete key) entry.sizeBytes room) (hpositive : 1 ≤ backend.maxEntries)
    (hfits : entry.sizeBytes ≤ backend.maxSizeBytes) : Bounded (room.insert key entry) := by
  have hlimits := (sameLimits_delete key backend).trans hroom.limits
  have hmax : room.maxEntries = backend.maxEntries := hlimits.maxEntries
  have hbytes : room.maxSizeBytes = backend.maxSizeBytes := hlimits.maxSizeBytes
  have habsent : room.store.get? key = none := hroom.subset key (by rw [store_delete]; simp)
  have hunder : ¬ room.overLimits entry.sizeBytes = true := by simp [hroom.fits]
  rw [overLimits_iff hroom.accounted, not_and_or, not_or] at hunder
  have haccounted := hroom.accounted
  -- Nothing is left, or what is left is under both limits.
  have hcases : (room.store.size = 0 ∧ totalSize room.store = 0) ∨
      (room.store.size < room.maxEntries ∧ totalSize room.store + entry.sizeBytes ≤ room.maxSizeBytes) := by
    rcases hunder with hnil | ⟨hcount, hsize⟩
    · rw [not_not] at hnil
      exact .inl ⟨by simp [OrdMap.size, hnil], by simp [totalSize_eq, sizeOf, hnil]⟩
    · rw [totalSize_eq]
      exact .inr ⟨Nat.lt_of_not_le hcount, Nat.le_of_not_lt hsize⟩
  have hset := totalSize_set habsent entry
  have hsize : (room.store.set key entry).size = room.store.size + 1 := by
    rw [OrdMap.size_set, OrdMap.contains, habsent]
    rfl
  refine ⟨?_, ?_, ?_⟩
  · simp only [MemoryCacheBackend.insert, hset]
    omega
  · simp only [MemoryCacheBackend.insert, hsize]
    omega
  · simp only [MemoryCacheBackend.insert]
    omega

/-- One call of `set` in a sequence of them; after a refusal there are no more. -/
def setNext (now : ℚ) (fuel : Nat) (written : Written) (entry : BatchEntry) : Option Written :=
  if written.2 then some written else written.1.set fuel now entry.key entry.value entry.ttl

theorem setBatch_refused (fuel : Nat) (now : ℚ) (entries : List BatchEntry) (backend : MemoryCacheBackend) :
    entries.foldlM (setNext now fuel) (backend, true) = some (backend, true) := by
  induction entries with
  | nil => rfl
  | cons entry entries ih =>
    rw [List.foldlM_cons]
    exact ih

theorem setBatch_eq (fuel : Nat) (now : ℚ) (entries : List BatchEntry) (backend : MemoryCacheBackend) :
    backend.setBatch fuel now entries = entries.foldlM (setNext now fuel) (backend, false) := by
  induction entries generalizing backend with
  | nil => rfl
  | cons entry entries ih =>
    rw [List.foldlM_cons, setNext, if_neg Bool.false_ne_true, set, setBatch]
    cases resolveCacheTtlSeconds entry.ttl with
    | none => exact (setBatch_refused fuel now entries backend).symm
    | some ttlSeconds =>
      dsimp only
      split
      · exact ih _
      · split
        · exact ih _
        · cases evictWhileOver (estimateSize entry.key entry.value) fuel (backend.delete entry.key) with
          | none => rfl
          | some room => exact ih _

/-- The limit on entries is positive, and the store is within both. -/
structure Sound (backend : MemoryCacheBackend) : Prop extends Bounded backend where
  positive : 1 ≤ backend.maxEntries

theorem Sound.delete (h : Sound backend) (key : Text) : Sound (backend.delete key) :=
  ⟨h.toBounded.delete key, (sameLimits_delete key backend).maxEntries ▸ h.positive⟩

theorem Sound.deleteAll (h : Sound backend) (keys : List Text) :
    Sound (keys.foldl (fun backend key => backend.delete key) backend) := by
  induction keys generalizing backend with
  | nil => exact h
  | cons key keys ih => exact ih (h.delete key)

theorem sound_set {now : ℚ} {value : Text} {ttl : Option TtlArgument} {written : Written}
    (h : Sound backend) (hrun : backend.set fuel now key value ttl = some written) : Sound written.1 := by
  unfold set at hrun
  split at hrun
  · exact Option.some.inj hrun ▸ h
  · dsimp only at hrun
    split at hrun
    · exact Option.some.inj hrun ▸ h.delete key
    · split at hrun
      · exact Option.some.inj hrun ▸ h
      · rename_i hfits
        obtain ⟨room, hevict, rfl⟩ := Option.map_eq_some_iff.mp hrun
        have hroom := madeRoom_of_evictWhileOver fuel (h.delete key).accounted hevict
        have hlimits := (sameLimits_delete key backend).trans hroom.limits
        refine ⟨hroom.insert h.positive (Nat.le_of_not_lt hfits), ?_⟩
        show 1 ≤ room.maxEntries
        exact hlimits.maxEntries ▸ h.positive

theorem sound_setBatch {now : ℚ} {entries : List BatchEntry} {written : Written} (h : Sound backend)
    (hrun : backend.setBatch fuel now entries = some written) : Sound written.1 := by
  rw [setBatch_eq] at hrun
  refine foldlM_invariant (P := fun written => Sound written.1) (fun fuel s entry t hs hstep => ?_) h hrun
  unfold setNext at hstep
  split at hstep
  · exact Option.some.inj hstep ▸ hs
  · exact sound_set hs hstep

/-! ## Every operation -/

theorem sound_get (h : Sound backend) (now : ℚ) (key : Text) : Sound (backend.get now key).1 := by
  unfold get
  split
  · exact h
  · split
    · exact h.delete key
    · exact h

theorem sound_getBatch (h : Sound backend) (now : ℚ) (keys : List Text) : Sound (backend.getBatch now keys).1 := by
  rw [MemoryCacheBackend.getBatch]
  generalize (OrdMap.empty : OrdMap Text (Option Text)) = results
  induction keys generalizing backend results with
  | nil => exact h
  | cons key keys ih => exact ih (sound_get h now key) _

theorem sound_getRemainingTtlSeconds (h : Sound backend) (now : ℚ) (key : Text) :
    Sound (backend.getRemainingTtlSeconds now key).1 := by
  unfold getRemainingTtlSeconds
  split
  · exact h
  · dsimp only
    split
    · exact h.delete key
    · exact h

theorem sound_globOf (h : Sound backend) (pattern : Text) : Sound (backend.globOf pattern).1 := by
  unfold globOf
  split
  · exact h
  · split
    · exact h
    · exact ⟨⟨h.accounted, h.entries, h.bytes⟩, h.positive⟩

theorem sound_delByPattern (h : Sound backend) (pattern : Text) : Sound (backend.delByPattern pattern).1 := by
  unfold delByPattern
  have hglob := sound_globOf h pattern
  generalize backend.globOf pattern = found at hglob ⊢
  obtain ⟨after, glob⟩ := found
  cases glob with
  | none => exact hglob
  | some glob => exact hglob.deleteAll _

theorem sound_clear (h : Sound backend) : Sound backend.clear :=
  ⟨⟨rfl, Nat.zero_le _, Int.natCast_nonneg _⟩, h.positive⟩

theorem sound_apply {call : Call} {after : MemoryCacheBackend} (h : Sound backend)
    (hrun : backend.apply fuel call = some after) : Sound after := by
  unfold apply at hrun
  cases hop : call.operation <;> rw [hop] at hrun
  case set key value ttl =>
    obtain ⟨written, hset, rfl⟩ := Option.map_eq_some_iff.mp hrun
    exact sound_set h hset
  case setBatch entries =>
    obtain ⟨written, hset, rfl⟩ := Option.map_eq_some_iff.mp hrun
    exact sound_setBatch h hset
  case get key => exact Option.some.inj hrun ▸ sound_get h _ key
  case getBatch keys => exact Option.some.inj hrun ▸ sound_getBatch h _ keys
  case getRemainingTtlSeconds key => exact Option.some.inj hrun ▸ sound_getRemainingTtlSeconds h _ key
  case del key => exact Option.some.inj hrun ▸ h.delete key
  case delByPattern pattern => exact Option.some.inj hrun ▸ sound_delByPattern h pattern
  case clear => exact Option.some.inj hrun ▸ sound_clear h

/-! ## When an operation ends -/

def MakesRoom (key value : Text) (ttl : Option TtlArgument) (backend : MemoryCacheBackend) : Prop :=
  ∀ ttlSeconds, resolveCacheTtlSeconds ttl = some ttlSeconds → 0 < ttlSeconds →
    estimateSize key value ≤ backend.maxSizeBytes → ¬ (backend.delete key).Stuck (estimateSize key value)

def Call.MakesRoom (call : Call) (backend : MemoryCacheBackend) : Prop :=
  match call.operation with
  | .set key value ttl => backend.MakesRoom key value ttl
  | .setBatch entries =>
    ∀ before entry after, entries = before ++ entry :: after → ∀ fuel mid,
      backend.setBatch fuel call.now before = some (mid, false) → mid.MakesRoom entry.key entry.value entry.ttl
  | _ => True

theorem set_mono {fuel' : Nat} (hle : fuel ≤ fuel') {now : ℚ} {value : Text} {ttl : Option TtlArgument}
    {written : Written} (h : backend.set fuel now key value ttl = some written) :
    backend.set fuel' now key value ttl = some written := by
  unfold set at h ⊢
  split at h
  · exact h
  · dsimp only at h ⊢
    split at h
    · rename_i hexpired
      rwa [if_pos hexpired]
    · rename_i hpositive
      rw [if_neg hpositive]
      split at h
      · rename_i hlarge
        rwa [if_pos hlarge]
      · rename_i hfits
        obtain ⟨room, hevict, hwritten⟩ := Option.map_eq_some_iff.mp h
        rw [if_neg hfits, evictWhileOver_mono hle hevict]
        exact congrArg some hwritten

theorem fuelMonotone_setNext (now : ℚ) : FuelMonotone (setNext now) := by
  intro fuel fuel' written entry after hle h
  unfold setNext at h ⊢
  split at h
  · rename_i hrefused
    rwa [if_pos hrefused]
  · rename_i hgoes
    rw [if_neg hgoes]
    exact set_mono hle h

theorem fuelMonotone_apply : FuelMonotone apply := by
  intro fuel fuel' backend call after hle h
  unfold apply at h ⊢
  cases hop : call.operation <;> rw [hop] at h
  case set key value ttl =>
    obtain ⟨written, hset, rfl⟩ := Option.map_eq_some_iff.mp h
    exact Option.map_eq_some_iff.mpr ⟨written, set_mono hle hset, rfl⟩
  case setBatch entries =>
    obtain ⟨written, hset, rfl⟩ := Option.map_eq_some_iff.mp h
    refine Option.map_eq_some_iff.mpr ⟨written, ?_, rfl⟩
    rw [setBatch_eq] at hset ⊢
    exact (fuelMonotone_setNext _).foldlM hle hset
  all_goals exact h

theorem set_ends_iff (h : Sound backend) {now : ℚ} {value : Text} {ttl : Option TtlArgument} :
    (∃ fuel written, backend.set fuel now key value ttl = some written) ↔ backend.MakesRoom key value ttl := by
  have haccounted := (h.delete key).accounted
  constructor
  · rintro ⟨fuel, written, hset⟩ ttlSeconds httl hpositive hfits hstuck
    unfold set at hset
    rw [httl] at hset
    dsimp only at hset
    rw [if_neg (not_le.mpr hpositive), if_neg (Nat.not_lt.mpr hfits), evictWhileOver_of_stuck fuel haccounted hstuck] at hset
    cases hset
  · intro hroom
    unfold set
    cases httl : resolveCacheTtlSeconds ttl with
    | none => exact ⟨0, _, rfl⟩
    | some ttlSeconds =>
      dsimp only
      split
      · exact ⟨0, _, rfl⟩
      · rename_i hpositive
        split
        · exact ⟨0, _, rfl⟩
        · rename_i hfits
          have hfree := hroom ttlSeconds httl (not_le.mp hpositive) (Nat.le_of_not_lt hfits)
          obtain ⟨room, hevict⟩ := Option.isSome_iff_exists.mp
            (evictWhileOver_isSome haccounted hfree (Nat.lt_succ_self _))
          exact ⟨_, _, by rw [hevict]; rfl⟩

theorem setBatch_ends_iff (h : Sound backend) {now : ℚ} {entries : List BatchEntry} :
    (∃ fuel written, backend.setBatch fuel now entries = some written) ↔
      ∀ before entry after, entries = before ++ entry :: after → ∀ fuel mid,
        backend.setBatch fuel now before = some (mid, false) → mid.MakesRoom entry.key entry.value entry.ttl := by
  simp only [setBatch_eq]
  rw [foldlM_ends_iff (fuelMonotone_setNext now)]
  refine forall_congr' fun before => forall_congr' fun entry => forall_congr' fun after => imp_congr_right fun _ =>
    forall_congr' fun fuel => ?_
  constructor
  · intro hends mid hbefore
    obtain ⟨fuel', written, hnext⟩ := hends (mid, false) hbefore
    have hsound : Sound mid := sound_setBatch h (setBatch_eq fuel now before backend ▸ hbefore)
    exact (set_ends_iff hsound).mp ⟨fuel', written, hnext⟩
  · rintro hroom ⟨mid, refused⟩ hbefore
    cases refused with
    | true => exact ⟨0, _, rfl⟩
    | false =>
      have hsound : Sound mid := sound_setBatch h (setBatch_eq fuel now before backend ▸ hbefore)
      exact (set_ends_iff hsound).mpr (hroom mid hbefore)

theorem apply_ends_iff (h : Sound backend) (call : Call) :
    Ends apply backend call ↔ call.MakesRoom backend := by
  unfold Ends apply Call.MakesRoom
  cases call.operation
  case set key value ttl =>
    refine Iff.trans ?_ (@set_ends_iff key _ h call.now value ttl)
    simp [Option.map_eq_some_iff]
  case setBatch entries =>
    refine Iff.trans ?_ (setBatch_ends_iff h)
    simp [Option.map_eq_some_iff]
  all_goals exact iff_of_true ⟨0, _, rfl⟩ trivial

/-! ## Runs -/

theorem sound_create {maxEntries : Nat} (h : 1 ≤ maxEntries) (maxSizeBytes : Nat) : Sound (create maxEntries maxSizeBytes) :=
  ⟨bounded_create maxEntries maxSizeBytes, h⟩

theorem sound_applyAll {calls : List Call} {after : MemoryCacheBackend} (h : Sound backend)
    (hrun : backend.applyAll fuel calls = some after) : Sound after := by
  have hstep : ∀ fuel backend call after, Sound backend → apply fuel backend call = some after → Sound after :=
    fun _ _ _ _ hsound happly => sound_apply hsound happly
  exact foldlM_invariant hstep h hrun

theorem applyAll_ends_iff (h : Sound backend) (calls : List Call) :
    (∃ fuel after, backend.applyAll fuel calls = some after) ↔
      ∀ before call after, calls = before ++ call :: after → ∀ fuel mid,
        backend.applyAll fuel before = some mid → call.MakesRoom mid := by
  refine (foldlM_ends_iff fuelMonotone_apply).trans ?_
  refine forall_congr' fun before => forall_congr' fun call => forall_congr' fun after => imp_congr_right fun _ =>
    forall_congr' fun fuel => forall_congr' fun mid => ?_
  exact imp_congr_right fun hrun => apply_ends_iff (sound_applyAll h hrun) call

/-- From a fresh cache a run of operations ends exactly when each write, where the run has come to it, makes room
without coming to the empty key; what a run ends in is counted right and within the limits; and a batch is its calls
of `set`. -/
theorem run_ends_iff {maxEntries : Nat} (h : 1 ≤ maxEntries) (maxSizeBytes : Nat) (calls : List Call) :
    ((∃ fuel after, (create maxEntries maxSizeBytes).applyAll fuel calls = some after) ↔
        ∀ before call after, calls = before ++ call :: after → ∀ fuel mid,
          (create maxEntries maxSizeBytes).applyAll fuel before = some mid → call.MakesRoom mid) ∧
      (∀ fuel after, (create maxEntries maxSizeBytes).applyAll fuel calls = some after → Bounded after) ∧
      ∀ fuel now entries (backend : MemoryCacheBackend),
        backend.setBatch fuel now entries = entries.foldlM (setNext now fuel) (backend, false) :=
  ⟨applyAll_ends_iff (sound_create h maxSizeBytes) calls,
    fun _ _ hrun => (sound_applyAll (sound_create h maxSizeBytes) hrun).toBounded, setBatch_eq⟩

/-! ## The empty key -/

/-- An entry under the empty key fills a cache for one entry, and another is to be stored. -/
def filled : List Call := [⟨.set [] [1] none, 0⟩, ⟨.set [2] [3] none, 0⟩]

/-- The same under a key that can be evicted. -/
def evicting : List Call := [⟨.set [1] [1] none, 0⟩, ⟨.set [2] [3] none, 0⟩]

theorem run_ends_iff_filled :
    (∃ fuel after, (create 1 100).applyAll fuel evicting = some after ∧ Bounded after ∧
      ∀ before call later, evicting = before ++ call :: later → ∀ fuel mid,
        (create 1 100).applyAll fuel before = some mid → call.MakesRoom mid) ∧
    ((∃ fuel after, (create 1 100).applyAll fuel filled = some after) ↔
      ∀ before call after, filled = before ++ call :: after → ∀ fuel mid,
        (create 1 100).applyAll fuel before = some mid → call.MakesRoom mid) := by
  refine ⟨?_, (run_ends_iff (Nat.le_refl 1) 100 filled).1⟩
  obtain ⟨after, hafter⟩ := Option.isSome_iff_exists.mp (by decide : ((create 1 100).applyAll 2 evicting).isSome = true)
  obtain ⟨hends, hbounded, -⟩ := run_ends_iff (Nat.le_refl 1) 100 evicting
  exact ⟨2, after, hafter, hbounded 2 after hafter, hends.mp ⟨2, after, hafter⟩⟩

theorem filled_never_ends : ¬ ∃ fuel after, (create 1 100).applyAll fuel filled = some after := by
  rintro ⟨fuel, after, hrun⟩
  have hroom := (applyAll_ends_iff (sound_create (Nat.le_refl 1) 100) filled).mp ⟨fuel, after, hrun⟩
    [⟨.set [] [1] none, 0⟩] ⟨.set [2] [3] none, 0⟩ [] rfl 1 _ rfl
  refine hroom defaultTtlSeconds rfl (by decide) (by decide) ⟨?_, .inl ?_⟩
  · decide
  · decide

end Veryfront.Cache.MemoryCacheBackend
