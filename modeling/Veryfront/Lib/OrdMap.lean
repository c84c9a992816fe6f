import Mathlib.Data.List.Nodup

/-!
# Maps in insertion order

A finite map whose entries keep the order in which their keys were first set, as the keyed
collections of scripting languages do. Replacing a value keeps the key's place.
-/

namespace Veryfront.Lib

universe u v

structure OrdMap (κ : Type u) (α : Type v) where
  entries : List (κ × α)
  nodup : (entries.map Prod.fst).Nodup
deriving DecidableEq

namespace OrdMap

variable {κ : Type u} {α : Type v}

def empty : OrdMap κ α := ⟨[], List.nodup_nil⟩

instance : Inhabited (OrdMap κ α) := ⟨empty⟩

def keys (m : OrdMap κ α) : List κ := m.entries.map Prod.fst

def values (m : OrdMap κ α) : List α := m.entries.map Prod.snd

def size (m : OrdMap κ α) : Nat := m.entries.length

theorem keys_nodup (m : OrdMap κ α) : m.keys.Nodup := m.nodup

variable {m : OrdMap κ α}

theorem eq_empty_of_size (h : m.size = 0) : m = .empty := by
  cases m with
  | mk es hn =>
    obtain rfl := List.length_eq_zero_iff.mp h
    rfl

variable [DecidableEq κ]

def get? (m : OrdMap κ α) (k : κ) : Option α := (m.entries.find? fun e => e.1 = k).map Prod.snd

def contains (m : OrdMap κ α) (k : κ) : Bool := (m.get? k).isSome

/-- The entries after `k` is set to `v`: in its old place, or else at the end. -/
def setEntries (es : List (κ × α)) (k : κ) (v : α) : List (κ × α) :=
  if k ∈ es.map Prod.fst then es.map fun e => if e.1 = k then (k, v) else e else es ++ [(k, v)]

theorem keys_setEntries (es : List (κ × α)) (k : κ) (v : α) :
    (setEntries es k v).map Prod.fst = if k ∈ es.map Prod.fst then es.map Prod.fst
      else es.map Prod.fst ++ [k] := by
  unfold setEntries
  split
  · rw [List.map_map]
    apply List.map_congr_left
    intro e _
    by_cases h : e.1 = k <;> simp [h]
  · simp

def set (m : OrdMap κ α) (k : κ) (v : α) : OrdMap κ α where
  entries := setEntries m.entries k v
  nodup := by
    rw [keys_setEntries]
    split
    · exact m.nodup
    · rename_i h
      exact List.Nodup.append m.nodup (List.nodup_singleton k) (List.disjoint_singleton.mpr h)

def erase (m : OrdMap κ α) (k : κ) : OrdMap κ α where
  entries := m.entries.filter fun e => e.1 ≠ k
  nodup := m.nodup.sublist (List.Sublist.map _ List.filter_sublist)

/-- Every entry of `p` set over `m`, in `p`'s order. -/
def merge (m p : OrdMap κ α) : OrdMap κ α := p.entries.foldl (fun m e => m.set e.1 e.2) m

def eraseAll (m : OrdMap κ α) (ks : List κ) : OrdMap κ α := ks.foldl erase m

/-! ## Lookups -/

theorem find?_key_eq_some (es : List (κ × α)) (h : (es.map Prod.fst).Nodup) (k : κ) (v : α) :
    (es.find? fun e => e.1 = k) = some (k, v) ↔ (k, v) ∈ es := by
  induction es with
  | nil => simp
  | cons e es ih =>
    simp only [List.map_cons, List.nodup_cons, List.mem_map, not_exists, not_and] at h
    by_cases he : e.1 = k
    · have hno : (k, v) ∉ es := fun hm => h.1 _ hm he.symm
      simp only [List.find?_cons, he, decide_true, Option.some.injEq, List.mem_cons, hno, or_false]
      exact eq_comm
    · have hne : (k, v) ≠ e := by rintro rfl; exact he rfl
      simp only [List.find?_cons, he, decide_false, List.mem_cons, hne, false_or]
      exact ih h.2

theorem get?_eq_some (m : OrdMap κ α) (k : κ) (v : α) : m.get? k = some v ↔ (k, v) ∈ m.entries := by
  rw [← find?_key_eq_some m.entries m.nodup, get?]
  constructor
  · intro h
    obtain ⟨e, he, rfl⟩ := Option.map_eq_some_iff.mp h
    have hk : e.1 = k := by simpa using List.find?_some he
    rw [he, ← hk]
  · intro h
    rw [h]
    rfl

theorem get?_eq_none (m : OrdMap κ α) (k : κ) : m.get? k = none ↔ k ∉ m.keys := by
  simp only [get?, keys, Option.map_eq_none_iff, List.find?_eq_none, decide_eq_true_eq, List.mem_map]
  constructor
  · rintro h ⟨e, he, hk⟩; exact h e he hk
  · intro h e he hk; exact h ⟨e, he, hk⟩

@[simp] theorem get?_empty (k : κ) : (empty : OrdMap κ α).get? k = none := rfl

theorem contains_iff (m : OrdMap κ α) (k : κ) : m.contains k = true ↔ k ∈ m.keys := by
  rw [contains, Option.isSome_iff_ne_none, ne_eq, get?_eq_none, not_not]

theorem mem_setEntries (es : List (κ × α)) (k : κ) (v : α) (j : κ) (w : α) :
    (j, w) ∈ setEntries es k v ↔ if j = k then w = v else (j, w) ∈ es := by
  unfold setEntries
  split <;> rename_i hk
  · simp only [List.mem_map]
    by_cases hj : j = k
    · subst hj
      simp only [if_true]
      constructor
      · rintro ⟨e, he, hv⟩
        by_cases hej : e.1 = j
        · simpa [hej, eq_comm] using hv
        · rw [if_neg hej] at hv; exact absurd (by rw [hv]) hej
      · rintro rfl
        obtain ⟨e, he, hej⟩ := List.mem_map.mp hk
        exact ⟨e, he, by rw [if_pos hej]⟩
    · simp only [if_neg hj]
      constructor
      · rintro ⟨e, he, hv⟩
        by_cases hek : e.1 = k
        · rw [if_pos hek] at hv; cases hv; exact absurd rfl hj
        · rw [if_neg hek] at hv; exact hv ▸ he
      · intro hm
        exact ⟨_, hm, by rw [if_neg hj]⟩
  · simp only [List.mem_append, List.mem_singleton, Prod.mk.injEq]
    by_cases hj : j = k
    · subst hj
      have : (j, w) ∉ es := fun hm => hk (List.mem_map_of_mem hm)
      simp [this]
    · simp [hj]

@[simp] theorem get?_set (m : OrdMap κ α) (k : κ) (v : α) (j : κ) :
    (m.set k v).get? j = if j = k then some v else m.get? j := by
  apply Option.ext
  intro w
  rw [get?_eq_some, show (m.set k v).entries = setEntries m.entries k v from rfl,
    mem_setEntries]
  split
  · simp [eq_comm]
  · rw [get?_eq_some]

@[simp] theorem get?_erase (m : OrdMap κ α) (k j : κ) :
    (m.erase k).get? j = if j = k then none else m.get? j := by
  apply Option.ext
  intro w
  rw [get?_eq_some, show (m.erase k).entries = m.entries.filter fun e => e.1 ≠ k from rfl]
  split <;> rename_i h <;> simp [h, get?_eq_some]

/-- Of all values that a scan of the entries puts under a key, the last one stays, and there is one at most. -/
theorem foldl_latest (m : OrdMap κ α) (j : κ) (old : Option α) :
    m.entries.foldl (fun old e => if j = e.1 then some e.2 else old) old = (m.get? j).or old := by
  have hscan (es : List (κ × α)) (h : (es.map Prod.fst).Nodup) : ∀ old : Option α,
      es.foldl (fun old e => if j = e.1 then some e.2 else old) old =
        ((es.find? fun e => e.1 = j).map Prod.snd).or old := by
    induction es with
    | nil => exact fun _ => rfl
    | cons e es ih =>
      intro old
      simp only [List.map_cons, List.nodup_cons, List.mem_map, not_exists, not_and] at h
      rw [List.foldl_cons, ih h.2, List.find?_cons]
      by_cases he : j = e.1
      · have hno : (es.find? fun x => decide (x.1 = j)) = none := by
          simp only [List.find?_eq_none, decide_eq_true_eq]
          intro x hx hxj
          exact h.1 x hx (hxj.trans he)
        rw [hno, if_pos he]
        simp [he]
      · rw [if_neg he]
        simp [Ne.symm he]
  exact hscan m.entries m.nodup old

theorem get?_merge (m p : OrdMap κ α) (j : κ) : (m.merge p).get? j = (p.get? j).or (m.get? j) := by
  rw [← foldl_latest]
  exact (List.foldl_hom (fun m : OrdMap κ α => m.get? j) fun m e => (get?_set m e.1 e.2 j).symm).symm

theorem get?_eraseAll (m : OrdMap κ α) (ks : List κ) (j : κ) :
    (m.eraseAll ks).get? j = if j ∈ ks then none else m.get? j := by
  induction ks generalizing m with
  | nil => simp [eraseAll]
  | cons k ks ih =>
    rw [eraseAll, List.foldl_cons, ← eraseAll, ih, get?_erase]
    by_cases h : j = k <;> simp [h]

/-! ## Sizes -/

theorem keys_set (m : OrdMap κ α) (k : κ) (v : α) :
    (m.set k v).keys = if k ∈ m.keys then m.keys else m.keys ++ [k] :=
  keys_setEntries m.entries k v

theorem keys_set_of_mem {k : κ} (hk : k ∈ m.keys) (v : α) : (m.set k v).keys = m.keys := by
  rw [keys_set, if_pos hk]

theorem size_set (m : OrdMap κ α) (k : κ) (v : α) :
    (m.set k v).size = if m.contains k then m.size else m.size + 1 := by
  have h := congrArg List.length (keys_setEntries m.entries k v)
  have hc := contains_iff m k
  rw [List.length_map] at h
  rw [size, show (m.set k v).entries = setEntries m.entries k v from rfl, h]
  simp only [keys] at hc
  by_cases hk : k ∈ m.entries.map Prod.fst
  · rw [if_pos hk, if_pos (hc.mpr hk), List.length_map, size]
  · rw [if_neg hk, if_neg (fun h => hk (hc.mp h)), List.length_append, List.length_map, size]
    rfl

theorem size_eq_zero (m : OrdMap κ α) : m.size = 0 ↔ ∀ k, m.get? k = none := by
  simp only [size, List.length_eq_zero_iff, get?_eq_none, keys]
  constructor
  · intro h k; simp [h]
  · intro h
    by_contra hne
    obtain ⟨e, he⟩ := List.exists_mem_of_ne_nil _ hne
    exact h e.1 (List.mem_map_of_mem he)

theorem size_erase (m : OrdMap κ α) (k : κ) :
    (m.erase k).size = if m.contains k then m.size - 1 else m.size := by
  have key : ∀ es : List (κ × α), (es.map Prod.fst).Nodup →
      (es.filter fun e => e.1 ≠ k).length = if k ∈ es.map Prod.fst then es.length - 1 else es.length := by
    intro es
    induction es with
    | nil => simp
    | cons e es ih =>
      intro h
      simp only [List.map_cons, List.nodup_cons] at h
      have ih := ih h.2
      by_cases he : e.1 = k
      · have hno : k ∉ es.map Prod.fst := he ▸ h.1
        rw [if_neg hno] at ih
        rw [List.filter_cons_of_neg (by simp [he]), ih, List.map_cons, if_pos (by simp [he])]
        simp
      · rw [List.filter_cons_of_pos (by simp [he]), List.length_cons, ih, List.map_cons]
        by_cases hm : k ∈ es.map Prod.fst
        · have : es.length ≠ 0 := by
            intro h0; rw [List.length_eq_zero_iff.mp h0] at hm; simp at hm
          rw [if_pos hm, if_pos (List.mem_cons_of_mem _ hm), List.length_cons]; omega
        · rw [if_neg hm, if_neg (by simp [hm, Ne.symm he]), List.length_cons]
  rw [size, show (m.erase k).entries = m.entries.filter fun e => e.1 ≠ k from rfl, key _ m.nodup]
  have hc := contains_iff m k
  simp only [keys] at hc
  by_cases hk : k ∈ m.entries.map Prod.fst
  · rw [if_pos hk, if_pos (hc.mpr hk), size]
  · rw [if_neg hk, if_neg (fun h => hk (hc.mp h)), size]

/-! ## Values -/

theorem values_set_perm (m : OrdMap κ α) (k : κ) (v : α) :
    (m.set k v).values.Perm (v :: (m.erase k).values) := by
  have hmem : ∀ e, e ∈ (m.set k v).entries ↔ e ∈ (k, v) :: (m.erase k).entries := by
    rintro ⟨j, w⟩
    rw [← get?_eq_some, get?_set, List.mem_cons, ← get?_eq_some, get?_erase]
    by_cases h : j = k
    · subst h; simp [eq_comm]
    · simp [h]
  have hno : (k, v) ∉ (m.erase k).entries := by rw [← get?_eq_some]; simp
  exact ((List.perm_ext_iff_of_nodup (.of_map _ (m.set k v).nodup)
    (List.nodup_cons.mpr ⟨hno, .of_map _ (m.erase k).nodup⟩)).mpr hmem).map Prod.snd

theorem values_erase_perm {k : κ} {v : α} (h : m.get? k = some v) :
    m.values.Perm (v :: (m.erase k).values) := by
  have hmem : ∀ e, e ∈ m.entries ↔ e ∈ (k, v) :: (m.erase k).entries := by
    rintro ⟨j, w⟩
    rw [← get?_eq_some, List.mem_cons, ← get?_eq_some, get?_erase]
    by_cases hj : j = k
    · subst hj; simp [h, eq_comm]
    · simp [hj]
  have hno : (k, v) ∉ (m.erase k).entries := by rw [← get?_eq_some]; simp
  exact ((List.perm_ext_iff_of_nodup (.of_map _ m.nodup)
    (List.nodup_cons.mpr ⟨hno, .of_map _ (m.erase k).nodup⟩)).mpr hmem).map Prod.snd

theorem erase_of_get?_none {k : κ} (h : m.get? k = none) : m.erase k = m := by
  have : (m.erase k).entries = m.entries := by
    refine List.filter_eq_self.mpr fun e he => decide_eq_true ?_
    rintro rfl
    rw [(get?_eq_some m e.1 e.2).mpr he] at h
    cases h
  cases m
  simp only [erase] at this ⊢
  congr

theorem mem_values (m : OrdMap κ α) (v : α) : v ∈ m.values ↔ ∃ k, m.get? k = some v := by
  simp only [values, List.mem_map, get?_eq_some]
  constructor
  · rintro ⟨e, he, rfl⟩; exact ⟨e.1, he⟩
  · rintro ⟨k, hk⟩; exact ⟨_, hk, rfl⟩

/-! ## All values at once -/

def filter (m : OrdMap κ α) (p : κ → α → Bool) : OrdMap κ α where
  entries := m.entries.filter fun e => p e.1 e.2
  nodup := m.nodup.sublist (List.filter_sublist.map Prod.fst)

@[simp] theorem get?_filter (m : OrdMap κ α) (p : κ → α → Bool) (k : κ) :
    (m.filter p).get? k = (m.get? k).filter (p k) := by
  apply Option.ext
  intro v
  rw [get?_eq_some, Option.filter_eq_some_iff, get?_eq_some]
  exact List.mem_filter

theorem foldl_set_filter (m n : OrdMap κ α) (p : κ → α → Bool) :
    n.entries.foldl (fun m e => if p e.1 e.2 then m.set e.1 e.2 else m) m = m.merge (n.filter p) :=
  (List.foldl_filter ..).symm

/-- Every key replaced; of two entries that come under one key the later stays. -/
def mapKeys {κ' : Type*} [DecidableEq κ'] (m : OrdMap κ α) (f : κ → κ') : OrdMap κ' α :=
  m.entries.foldl (fun n e => n.set (f e.1) e.2) .empty

theorem get?_mapKeys {κ' : Type*} [DecidableEq κ'] (m : OrdMap κ α) (f : κ → κ') {k : κ}
    (h : ∀ k' ∈ m.keys, f k' = f k → k' = k) : (m.mapKeys f).get? (f k) = m.get? k := by
  have hscan : (m.mapKeys f).get? (f k) = m.entries.foldl (fun old e => if f k = f e.1 then some e.2 else old) none :=
    (List.foldl_hom (fun n : OrdMap κ' α => n.get? (f k)) fun n e => (get?_set n (f e.1) e.2 (f k)).symm).symm
  have hsame : m.entries.foldl (fun old e => if f k = f e.1 then some e.2 else old) none =
      m.entries.foldl (fun old e => if k = e.1 then some e.2 else old) none := by
    refine List.foldl_ext _ _ _ fun old e he => if_congr ⟨fun hf => ?_, fun hk => congrArg f hk⟩ rfl rfl
    exact (h e.1 (List.mem_map_of_mem he) hf.symm).symm
  rw [hscan, hsame, foldl_latest, Option.or_none]

def mapValues (m : OrdMap κ α) (f : κ → α → α) : OrdMap κ α where
  entries := m.entries.map fun e => (e.1, f e.1 e.2)
  nodup := by
    rw [List.map_map]
    exact m.nodup

omit [DecidableEq κ] in
@[simp] theorem keys_mapValues (m : OrdMap κ α) (f : κ → α → α) : (m.mapValues f).keys = m.keys := by
  rw [keys, show (m.mapValues f).entries = m.entries.map fun e => (e.1, f e.1 e.2) from rfl, List.map_map]
  rfl

@[simp] theorem get?_mapValues (m : OrdMap κ α) (f : κ → α → α) (k : κ) :
    (m.mapValues f).get? k = (m.get? k).map (f k) := by
  apply Option.ext
  intro w
  rw [get?_eq_some, Option.map_eq_some_iff, show (m.mapValues f).entries = m.entries.map fun e => (e.1, f e.1 e.2) from rfl,
    List.mem_map]
  constructor
  · rintro ⟨e, he, heq⟩
    obtain ⟨rfl, rfl⟩ := Prod.mk.inj heq
    exact ⟨e.2, (get?_eq_some ..).mpr he, rfl⟩
  · rintro ⟨v, hv, rfl⟩
    exact ⟨(k, v), (get?_eq_some ..).mp hv, rfl⟩

theorem entries_eq_filterMap (m : OrdMap κ α) : m.entries = m.keys.filterMap fun k => (m.get? k).map (k, ·) := by
  have hentry : ∀ e ∈ m.entries, ((m.get? e.1).map (e.1, ·)) = some e := by
    intro e he
    rw [(get?_eq_some m e.1 e.2).mpr he]
    rfl
  rw [keys, List.filterMap_map, List.filterMap_congr (g := some) (by exact hentry), List.filterMap_some]

theorem eq_of_keys {n : OrdMap κ α} (hkeys : m.keys = n.keys) (hget : ∀ k, m.get? k = n.get? k) : m = n := by
  have hentries : m.entries = n.entries := by
    rw [entries_eq_filterMap m, entries_eq_filterMap n, hkeys]
    exact List.filterMap_congr fun k _ => by rw [hget]
  cases m
  cases n
  congr

theorem filterMap_key {β : Type*} (m : OrdMap κ α) (k : κ) (g : κ × α → Option β) (hg : ∀ e, e.1 ≠ k → g e = none) :
    m.entries.filterMap g = ((m.get? k).bind fun v => g (k, v)).toList := by
  have hlist : ∀ es : List (κ × α), (es.map Prod.fst).Nodup →
      es.filterMap g = (((es.find? fun e => e.1 = k).map Prod.snd).bind fun v => g (k, v)).toList := by
    intro es
    induction es with
    | nil => exact fun _ => rfl
    | cons e es ih =>
      intro hnodup
      rw [List.map_cons, List.nodup_cons] at hnodup
      by_cases hk : e.1 = k
      · have hrest : es.filterMap g = [] := by
          refine List.filterMap_eq_nil_iff.mpr fun e' he' => hg e' fun h => ?_
          exact hnodup.1 (hk ▸ h ▸ List.mem_map_of_mem he')
        rw [List.filterMap_cons, hrest, List.find?_cons_of_pos (by simpa using hk), Option.map_some, Option.bind_some, ← hk]
        cases g (e.1, e.2) <;> rfl
      · rw [List.filterMap_cons_none (hg e hk), List.find?_cons_of_neg (by simpa using hk), ih hnodup.2]
  exact hlist m.entries m.nodup

theorem filter_keys (m : OrdMap κ α) (p : α → Bool) :
    m.keys.filter (fun k => (m.get? k).any p) = (m.entries.filter fun e => p e.2).map Prod.fst := by
  rw [keys, List.filter_map]
  congr 1
  refine List.filter_congr fun e he => ?_
  rw [Function.comp, (get?_eq_some m e.1 e.2).mpr he]
  rfl

theorem set_set (m : OrdMap κ α) (k : κ) (v w : α) : (m.set k v).set k w = m.set k w := by
  have hmem : k ∈ (m.set k v).keys := by
    rw [← contains_iff, contains, get?_set, if_pos rfl]
    rfl
  refine eq_of_keys ?_ fun j => ?_
  · rw [keys_set_of_mem hmem, keys_set, keys_set]
  · rw [get?_set, get?_set, get?_set]
    split <;> rfl

theorem set_self {k : κ} {v : α} (h : m.get? k = some v) : m.set k v = m := by
  have hmem : k ∈ m.keys := by
    rw [← contains_iff, contains, h]
    rfl
  refine eq_of_keys (keys_set_of_mem hmem v) fun j => ?_
  rw [get?_set]
  split
  · rename_i hj
    rw [hj, h]
  · rfl

theorem foldl_set_eq_mapValues (m : OrdMap κ α) (p : κ → α → Bool) (f : κ → α → α) :
    (m.entries.foldl (fun acc e => if p e.1 e.2 then acc.set e.1 (f e.1 e.2) else acc) m) =
      m.mapValues fun k v => if p k v then f k v else v := by
  have hpass : ∀ (es : List (κ × α)) (acc : OrdMap κ α), (es.map Prod.fst).Nodup → (∀ e ∈ es, acc.get? e.1 = some e.2) →
      let last := es.foldl (fun acc e => if p e.1 e.2 then acc.set e.1 (f e.1 e.2) else acc) acc
      last.keys = acc.keys ∧ ∀ k, last.get? k =
        if k ∈ es.map Prod.fst then (acc.get? k).map (fun v => if p k v then f k v else v) else acc.get? k := by
    intro es
    induction es with
    | nil => simp
    | cons e es ih =>
      intro acc hnodup hentries
      rw [List.map_cons, List.nodup_cons] at hnodup
      have hself := hentries e List.mem_cons_self
      have hmem : e.1 ∈ acc.keys := by
        rw [← contains_iff, contains, hself]
        rfl
      have hother : ∀ e' ∈ es, e'.1 ≠ e.1 := fun e' he' h => hnodup.1 (h ▸ List.mem_map_of_mem he')
      simp only [List.foldl_cons]
      split
      · rename_i hp
        obtain ⟨hkeys, hget⟩ := ih (acc.set e.1 (f e.1 e.2)) hnodup.2 fun e' he' => by
          rw [get?_set, if_neg (hother e' he')]
          exact hentries e' (List.mem_cons_of_mem _ he')
        refine ⟨hkeys.trans (keys_set_of_mem hmem _), fun k => ?_⟩
        rw [hget, get?_set, List.map_cons]
        by_cases hk : k = e.1
        · subst hk
          simp [hnodup.1, hself, hp]
        · simp only [List.mem_cons, hk, false_or, if_false]
      · rename_i hp
        obtain ⟨hkeys, hget⟩ := ih acc hnodup.2 fun e' he' => hentries e' (List.mem_cons_of_mem _ he')
        refine ⟨hkeys, fun k => ?_⟩
        rw [hget, List.map_cons]
        by_cases hk : k = e.1
        · subst hk
          simp [hnodup.1, hself, hp]
        · simp only [List.mem_cons, hk, false_or]
  obtain ⟨hkeys, hget⟩ := hpass m.entries m m.nodup fun e he => (get?_eq_some m e.1 e.2).mpr he
  refine eq_of_keys (hkeys.trans (keys_mapValues ..).symm) fun k => ?_
  rw [hget, get?_mapValues]
  split
  · rfl
  · rename_i hk
    rw [(get?_eq_none m k).mpr hk]
    rfl

end OrdMap

end Veryfront.Lib
