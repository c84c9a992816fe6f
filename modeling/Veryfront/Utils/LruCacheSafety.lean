import Mathlib.Algebra.BigOperators.Group.List.Basic
import Mathlib.Algebra.GroupWithZero.Nat
import Mathlib.Data.List.Induction
import Mathlib.Data.List.Perm.Subperm
import Veryfront.Utils.LruCache

/-!
# What the LRU cache keeps

After any calls the map, the list, the tag index and the byte count say the same, and the list is in the order of the last
touches. What leaves is reported.
-/

namespace Veryfront.LruCache

open Lib Function EvictionManager

variable {ν τ : Type} {cache : LRUCacheAdapter ν τ} {order before behind : List Nat} {id : Nat} {key : Text}
  {entry : LRUEntry ν τ} {entries x z : List (Text × LRUEntry ν τ)}

def LRUEntry.carries (entry : LRUEntry ν τ) (tag : Text) : Prop := tag ∈ entry.tags.getD []

def bytes (entries : List (Text × LRUEntry ν τ)) : Nat := (entries.map (·.2.size)).sum

/-- What `onEvict` is told of entries. -/
def reports (entries : List (Text × LRUEntry ν τ)) : List (Text × ν) := entries.map fun (key, entry) => (key, entry.value)

def asNode (stored : Text × LRUEntry ν τ) : LRUNode ν τ := ⟨stored.1, stored.2⟩

/-- The nodes in `order` are those that are stored, with these entries. -/
structure Sound (cache : LRUCacheAdapter ν τ) (order : List Nat) (entries : List (Text × LRUEntry ν τ)) : Prop where
  listed : cache.listManager.Represents order
  nodes : order.map cache.nodes = entries.map fun stored => some (asNode stored)
  stored : ∀ key id, cache.store.get? key = some id ↔ id ∈ order ∧ ∃ entry, cache.nodes id = some ⟨key, entry⟩
  keys : (entries.map (·.1)).Nodup
  size : cache.currentSize = bytes entries
  tags : ∀ tag key, key ∈ SetIndex.members cache.tagIndex tag ↔ ∃ entry, (key, entry) ∈ entries ∧ entry.carries tag
  tight : SetIndex.Tight cache.tagIndex
  fresh : ∀ id, cache.allocated ≤ id → cache.nodes id = none

theorem sound_create (options : Options ν τ) : Sound (LRUCacheAdapter.create options) [] [] where
  listed := LinkedList.represents_empty
  nodes := rfl
  stored _ _ := by simp [LRUCacheAdapter.create]
  keys := List.nodup_nil
  size := rfl
  tags _ _ := by simp [LRUCacheAdapter.create, SetIndex.members]
  tight _ := by simp [LRUCacheAdapter.create]
  fresh _ _ := rfl

/-! ## Entries and their nodes -/

theorem filter_key (hkeys : ((x ++ (key, entry) :: z).map (·.1)).Nodup) :
    (x ++ (key, entry) :: z).filter (·.1 ≠ key) = x ++ z ∧ (x ++ (key, entry) :: z).filter (·.1 = key) = [(key, entry)] := by
  rw [List.map_append, List.map_cons, List.nodup_middle, List.nodup_cons, ← List.map_append] at hkeys
  have hall : ∀ stored ∈ x ++ z, stored.1 ≠ key := fun stored hmem heq => hkeys.1 (List.mem_map.mpr ⟨stored, hmem, heq⟩)
  constructor
  · rw [List.filter_append, List.filter_cons_of_neg (by simp), ← List.filter_append]
    exact List.filter_eq_self.mpr fun stored hmem => by simp [hall stored hmem]
  · have hnone {w : List (Text × LRUEntry ν τ)} (hw : ∀ stored ∈ w, stored.1 ≠ key) : w.filter (·.1 = key) = [] :=
      List.filter_eq_nil_iff.mpr fun stored hmem => by simp [hw stored hmem]
    rw [List.filter_append, List.filter_cons_of_pos (by simp), hnone fun stored hmem => hall stored (List.mem_append_left _ hmem),
      hnone fun stored hmem => hall stored (List.mem_append_right _ hmem)]
    rfl

theorem filter_key_of_notMem (hkey : key ∉ entries.map (·.1)) :
    entries.filter (·.1 ≠ key) = entries ∧ entries.filter (·.1 = key) = [] := by
  have hall : ∀ stored ∈ entries, stored.1 ≠ key := fun stored hmem heq => hkey (List.mem_map.mpr ⟨stored, hmem, heq⟩)
  exact ⟨List.filter_eq_self.mpr fun stored hmem => by simp [hall stored hmem],
    List.filter_eq_nil_iff.mpr fun stored hmem => by simp [hall stored hmem]⟩

namespace Sound

theorem mem_of_node (h : Sound cache order entries) (hid : id ∈ order) (hnode : cache.nodes id = some ⟨key, entry⟩) :
    (key, entry) ∈ entries := by
  have hmem : some ⟨key, entry⟩ ∈ order.map cache.nodes := hnode ▸ List.mem_map_of_mem hid
  rw [h.nodes] at hmem
  obtain ⟨⟨key', entry'⟩, hstored, hsame⟩ := List.mem_map.mp hmem
  cases hsame
  exact hstored

theorem node_of_mem (h : Sound cache order entries) (hmem : (key, entry) ∈ entries) :
    ∃ id ∈ order, cache.nodes id = some ⟨key, entry⟩ := by
  refine List.mem_map.mp ?_
  rw [h.nodes]
  exact List.mem_map.mpr ⟨(key, entry), hmem, rfl⟩

theorem split (h : Sound cache order entries) {node : LRUNode ν τ} (hnode : cache.nodeOf key = some (id, node)) :
    node = ⟨key, node.entry⟩ ∧ cache.nodes id = some node ∧ ∃ before behind x z, order = before ++ id :: behind ∧ entries = x ++ (key, node.entry) :: z ∧
      before.map cache.nodes = x.map (fun stored => some (asNode stored)) ∧
      behind.map cache.nodes = z.map fun stored => some (asNode stored) := by
  obtain ⟨id', hget, hmap⟩ := Option.bind_eq_some_iff.mp hnode
  obtain ⟨node', hfound, hpair⟩ := Option.map_eq_some_iff.mp hmap
  cases hpair
  obtain ⟨hid, entry, hentry⟩ := (h.stored key id).mp hget
  obtain rfl : node = ⟨key, entry⟩ := Option.some.inj (hfound.symm.trans hentry)
  obtain ⟨before, behind, rfl⟩ := List.append_of_mem hid
  have hnodes := h.nodes
  rw [List.map_append, List.map_cons, hentry] at hnodes
  obtain ⟨x, rest, rfl, hx, hrest⟩ := List.map_eq_append_iff.mp hnodes.symm
  obtain ⟨⟨key', entry'⟩, z, rfl, hhead, hz⟩ := List.map_eq_cons_iff.mp hrest
  cases hhead
  exact ⟨rfl, hentry, before, behind, x, z, rfl, rfl, hx.symm, hz.symm⟩

theorem notMem_of_nodeOf (h : Sound cache order entries) (hnode : cache.nodeOf key = none) : key ∉ entries.map (·.1) := by
  intro hmem
  obtain ⟨⟨key', entry⟩, hstored, rfl⟩ := List.mem_map.mp hmem
  obtain ⟨id, hid, hfound⟩ := h.node_of_mem hstored
  have hget := (h.stored key' id).mpr ⟨hid, entry, hfound⟩
  rw [LRUCacheAdapter.nodeOf, hget, Option.bind_some, hfound] at hnode
  cases hnode

theorem mem_keys_iff (h : Sound cache order entries) (key : Text) : key ∈ cache.store.keys ↔ key ∈ entries.map (·.1) := by
  rw [← not_iff_not, ← OrdMap.get?_eq_none]
  constructor
  · intro hnone
    refine h.notMem_of_nodeOf ?_
    rw [LRUCacheAdapter.nodeOf, hnone]
    rfl
  · intro hnot
    refine Option.eq_none_iff_forall_not_mem.mpr fun id hid => hnot ?_
    obtain ⟨hid, entry, hnode⟩ := (h.stored key id).mp hid
    exact List.mem_map_of_mem (h.mem_of_node hid hnode)

theorem store_size (h : Sound cache order entries) : cache.store.size = entries.length := by
  have hperm := (List.perm_ext_iff_of_nodup cache.store.keys_nodup h.keys).mpr h.mem_keys_iff
  simpa [OrdMap.keys, OrdMap.size] using hperm.length_eq

end Sound

/-! ## Entries that leave -/

def removal (cache : LRUCacheAdapter ν τ) (id : Nat) (key : Text) (entry : LRUEntry ν τ) : LRUCacheAdapter ν τ :=
  { cache with
    listManager := cache.listManager.removeNode id
    store := cache.store.erase key
    currentSize := cache.currentSize - entry.size
    tagIndex := EntryManager.cleanupTags (entry.tags.getD []) key cache.tagIndex
    evicted := cache.evicted ++ [(key, entry.value)] }

theorem cleanupTags_getD (entry : LRUEntry ν τ) (key : Text) (tagIndex : TagIndex) :
    (match entry.tags with
      | some tags => EntryManager.cleanupTags tags key tagIndex
      | none => tagIndex) = EntryManager.cleanupTags (entry.tags.getD []) key tagIndex := by
  cases entry.tags <;> rfl

variable {node : LRUNode ν τ}

theorem delete_eq (h : cache.nodeOf key = some (id, node)) :
    cache.delete key = removal cache id key node.entry := by
  simp only [LRUCacheAdapter.delete, h, removal]
  cases node.entry.tags <;> rfl

theorem evictLRUFromList_eq (htail : cache.listManager.tail = some id) (hnode : cache.nodes id = some node) :
    evictLRUFromList cache = removal cache id node.key node.entry := by
  simp only [evictLRUFromList, htail, hnode]
  rw [removal, ← cleanupTags_getD]
  rfl

theorem mem_cleanupTags (tags : List Text) (key : Text) (tagIndex : TagIndex) (tag other : Text) :
    other ∈ SetIndex.members (EntryManager.cleanupTags tags key tagIndex) tag ↔
      other ∈ SetIndex.members tagIndex tag ∧ ¬ (tag ∈ tags ∧ other = key) :=
  SetIndex.mem_foldl_remove (fun index k j b => SetIndex.mem_remove index k key j b) tags tagIndex tag other

theorem mem_updateTagIndex (tags : List Text) (key : Text) (tagIndex : TagIndex) (tag other : Text) :
    other ∈ SetIndex.members (EntryManager.updateTagIndex tags key tagIndex) tag ↔
      other ∈ SetIndex.members tagIndex tag ∨ (tag ∈ tags ∧ other = key) :=
  SetIndex.mem_foldl_add key tags tagIndex tag other

/-- A walk that deletes keys takes no other key out of what it walks, and changes nothing that it asks of another key. -/
theorem deleteAll_keeps {keys : List Text} {other : Text} (h : other ∉ keys) (cache : LRUCacheAdapter ν τ) :
    (keys.foldl LRUCacheAdapter.delete cache).nodeOf other = cache.nodeOf other ∧
      ∀ tag, other ∈ SetIndex.members (keys.foldl LRUCacheAdapter.delete cache).tagIndex tag ↔
        other ∈ SetIndex.members cache.tagIndex tag := by
  induction keys generalizing cache with
  | nil => exact ⟨rfl, fun _ => .rfl⟩
  | cons key keys ih =>
    obtain ⟨hne, hrest⟩ := not_or.mp (mt List.mem_cons.mpr h)
    obtain ⟨hnode, htags⟩ := ih hrest (cache.delete key)
    rw [List.foldl_cons, hnode]
    simp only [htags]
    cases hfound : cache.nodeOf key with
    | none => simp [LRUCacheAdapter.delete, hfound]
    | some found =>
      obtain ⟨id, node⟩ := found
      rw [delete_eq hfound]
      refine ⟨?_, fun tag => ?_⟩
      · simp [LRUCacheAdapter.nodeOf, removal, OrdMap.get?_erase, hne]
      · rw [removal, mem_cleanupTags]
        exact and_iff_left fun hboth => hne hboth.2

theorem Sound.removal (h : Sound cache (before ++ id :: behind) (x ++ (key, entry) :: z))
    (hbefore : before.map cache.nodes = x.map fun stored => some (asNode stored)) (hnode : cache.nodes id = some ⟨key, entry⟩)
    (hbehind : behind.map cache.nodes = z.map fun stored => some (asNode stored)) :
    Sound (removal cache id key entry) (before ++ behind) (x ++ z) := by
  have hkeys := h.keys
  rw [List.map_append, List.map_cons, List.nodup_middle, List.nodup_cons, ← List.map_append] at hkeys
  have hother {other : Text} {kept : LRUEntry ν τ} (hmem : (other, kept) ∈ x ++ z) : other ≠ key := by
    rintro rfl
    exact hkeys.1 (List.mem_map.mpr ⟨_, hmem, rfl⟩)
  have hlisted := h.listed.removeNode
  have hnodes : (before ++ behind).map cache.nodes = (x ++ z).map fun stored => some (asNode stored) := by
    rw [List.map_append, List.map_append, hbefore, hbehind]
  refine ⟨hlisted, hnodes, fun other id' => ?_, hkeys.2, ?_, fun tag other => ?_, ?_, h.fresh⟩
  · show (cache.store.erase key).get? other = some id' ↔ _
    rw [OrdMap.get?_erase]
    by_cases hsame : other = key
    · subst hsame
      rw [if_pos rfl]
      refine iff_of_false (by simp) ?_
      rintro ⟨hid, kept, hkept⟩
      have hmem : some ⟨other, kept⟩ ∈ (before ++ behind).map cache.nodes := hkept ▸ List.mem_map_of_mem hid
      rw [hnodes] at hmem
      obtain ⟨⟨key', kept'⟩, hstored, heq⟩ := List.mem_map.mp hmem
      cases heq
      exact hother hstored rfl
    · rw [if_neg hsame, h.stored other id']
      constructor
      · rintro ⟨hid, kept, hkept⟩
        refine ⟨?_, kept, hkept⟩
        rcases List.mem_append.mp hid with hid | hid
        · exact List.mem_append_left _ hid
        · rcases List.mem_cons.mp hid with rfl | hid
          · rw [hnode] at hkept
            cases hkept
            exact absurd rfl hsame
          · exact List.mem_append_right _ hid
      · rintro ⟨hid, kept, hkept⟩
        refine ⟨?_, kept, hkept⟩
        rcases List.mem_append.mp hid with hid | hid
        · exact List.mem_append_left _ hid
        · exact List.mem_append_right _ (List.mem_cons_of_mem _ hid)
  · show cache.currentSize - entry.size = _
    rw [h.size]
    simp only [bytes, List.map_append, List.map_cons, List.sum_append, List.sum_cons]
    omega
  · show other ∈ SetIndex.members (EntryManager.cleanupTags _ _ _) tag ↔ _
    rw [mem_cleanupTags, h.tags]
    constructor
    · rintro ⟨⟨kept, hmem, hcarries⟩, hnot⟩
      refine ⟨kept, ?_, hcarries⟩
      rcases List.mem_append.mp hmem with hmem | hmem
      · exact List.mem_append_left _ hmem
      · rcases List.mem_cons.mp hmem with heq | hmem
        · cases heq
          exact absurd ⟨hcarries, rfl⟩ hnot
        · exact List.mem_append_right _ hmem
    · rintro ⟨kept, hmem, hcarries⟩
      refine ⟨⟨kept, ?_, hcarries⟩, fun hnot => hother hmem hnot.2⟩
      rcases List.mem_append.mp hmem with hmem | hmem
      · exact List.mem_append_left _ hmem
      · exact List.mem_append_right _ (List.mem_cons_of_mem _ hmem)
  · exact SetIndex.tight_foldl (fun index tag htight => SetIndex.tight_remove htight tag key) _ h.tight

theorem Sound.delete (h : Sound cache order entries) (key : Text) :
    ∃ order', Sound (cache.delete key) order' (entries.filter (·.1 ≠ key)) ∧
      (cache.delete key).evicted = cache.evicted ++ reports (entries.filter (·.1 = key)) := by
  cases hfound : cache.nodeOf key with
  | none =>
    obtain ⟨hkept, hgone⟩ := filter_key_of_notMem (h.notMem_of_nodeOf hfound)
    rw [LRUCacheAdapter.delete, hfound, hkept, hgone]
    exact ⟨order, h, (List.append_nil _).symm⟩
  | some found =>
    obtain ⟨id, node⟩ := found
    obtain ⟨hnode, hid, before, behind, x, z, rfl, rfl, hbefore, hbehind⟩ := h.split hfound
    obtain ⟨hkept, hgone⟩ := filter_key h.keys
    rw [delete_eq hfound, hkept, hgone]
    exact ⟨_, h.removal hbefore (hid.trans (congrArg some hnode)) hbehind, rfl⟩

theorem reports_append (entries entries' : List (Text × LRUEntry ν τ)) :
    reports (entries ++ entries') = reports entries ++ reports entries' := List.map_append

theorem Sound.deleteAll (keys : List Text) (h : Sound cache order entries) :
    ∃ order' new, Sound (keys.foldl LRUCacheAdapter.delete cache) order' (entries.filter (·.1 ∉ keys)) ∧
      (keys.foldl LRUCacheAdapter.delete cache).evicted = cache.evicted ++ new ∧
      new.Perm (reports (entries.filter (·.1 ∈ keys))) := by
  induction keys generalizing cache order entries with
  | nil =>
    refine ⟨order, [], ?_, (List.append_nil _).symm, ?_⟩
    · rw [List.filter_eq_self.mpr fun _ _ => by simp]
      exact h
    · rw [List.filter_eq_nil_iff.mpr fun _ _ => by simp]
      exact .nil
  | cons key keys ih =>
    obtain ⟨order', hsound, hevicted⟩ := h.delete key
    obtain ⟨order'', new, hsound', hevicted', hperm⟩ := ih hsound
    rw [List.filter_filter] at hsound' hperm
    refine ⟨order'', reports (entries.filter (·.1 = key)) ++ new, ?_, ?_, ?_⟩
    · rw [List.foldl_cons, List.filter_congr fun stored _ => ?_]
      · exact hsound'
      · simp [not_or, Bool.and_comm]
    · rw [List.foldl_cons, hevicted', hevicted, List.append_assoc]
    · refine (hperm.append_left _).trans ?_
      rw [← reports_append]
      refine List.Perm.map _ ?_
      -- the entries of the first key, and those of the others
      have hsplit := List.filter_append_perm (fun stored => decide (stored.1 = key)) (entries.filter (·.1 ∈ key :: keys))
      rw [List.filter_filter, List.filter_filter] at hsplit
      refine List.Perm.trans (.of_eq ?_) hsplit
      congr 1
      · refine List.filter_congr fun stored _ => ?_
        by_cases heq : stored.1 = key <;> simp [heq]
      · refine List.filter_congr fun stored _ => ?_
        by_cases heq : stored.1 = key <;> simp [heq]

/-! ## Eviction -/

def Within (cache : LRUCacheAdapter ν τ) (entries : List (Text × LRUEntry ν τ)) : Prop :=
  entries.length ≤ cache.maxEntries ∧ bytes entries ≤ cache.maxSizeBytes

theorem Sound.enforceMemoryLimits {fuel : Nat} (h : Sound cache order entries) (hfuel : entries.length ≤ fuel) :
    ∃ order' kept gone, entries = kept ++ gone ∧ Sound (enforceMemoryLimits fuel cache) order' kept ∧
      (enforceMemoryLimits fuel cache).evicted = cache.evicted ++ reports gone.reverse ∧ Within cache kept ∧
      ∀ last rest, gone = last :: rest → ¬ Within cache (kept ++ [last]) := by
  induction fuel generalizing cache order entries with
  | zero =>
    obtain rfl := List.length_eq_zero_iff.mp (Nat.le_zero.mp hfuel)
    exact ⟨order, [], [], rfl, h, (List.append_nil _).symm, ⟨Nat.zero_le _, Nat.zero_le _⟩, nofun⟩
  | succ fuel ih =>
    have hstop (hwithin : Within cache entries) : ∃ order' kept gone, entries = kept ++ gone ∧ Sound cache order' kept ∧
        cache.evicted = cache.evicted ++ reports gone.reverse ∧ Within cache kept ∧
        ∀ last rest, gone = last :: rest → ¬ Within cache (kept ++ [last]) :=
      ⟨order, entries, [], (List.append_nil _).symm, h, (List.append_nil _).symm, hwithin, nofun⟩
    rw [EvictionManager.enforceMemoryLimits, h.store_size, h.size, h.listed.tail]
    split
    · rename_i hover
      obtain ⟨hover, htail⟩ := hover
      rcases List.eq_nil_or_concat order with rfl | ⟨before, id, rfl⟩
      · simp at htail
      rw [List.concat_eq_append] at h
      -- the node at the end and its entry
      have hnodes := h.nodes
      rw [List.map_append, List.map_singleton] at hnodes
      obtain ⟨x, back, rfl, hx, hback⟩ := List.map_eq_append_iff.mp hnodes.symm
      obtain ⟨⟨key, entry⟩, rfl, hnode⟩ := List.map_eq_singleton_iff.mp hback
      have htail : cache.listManager.tail = some id := by rw [h.listed.tail, List.getLast?_concat]
      have hevict : evictLRUFromList cache = LruCache.removal cache id key entry := evictLRUFromList_eq htail hnode.symm
      rw [hevict]
      have hremoval := h.removal hx.symm hnode.symm rfl
      rw [List.append_nil, List.append_nil] at hremoval
      obtain ⟨order', kept, gone, rfl, hsound, hevicted, hwithin, hneeded⟩ := ih hremoval (by
        rw [List.length_append, List.length_singleton] at hfuel
        omega)
      refine ⟨order', kept, gone ++ [(key, entry)], by rw [List.append_assoc], hsound, ?_, hwithin, ?_⟩
      · rw [hevicted, List.reverse_append, List.reverse_singleton, reports_append, ← List.append_assoc]
        rfl
      · intro last rest heq
        cases gone with
        | nil =>
          obtain ⟨rfl, rfl⟩ := List.cons.inj heq
          rintro ⟨hlength, hbytes⟩
          rw [List.append_nil] at hover
          rcases hover with hover | hover
          · omega
          · exact absurd hover (by exact_mod_cast Nat.not_lt_of_le hbytes)
        | cons first gone =>
          obtain ⟨rfl, -⟩ := List.cons.inj heq
          exact hneeded first gone rfl
    · rename_i hfits
      refine hstop ?_
      by_cases hempty : entries = []
      · rw [hempty]
        exact ⟨Nat.zero_le _, Nat.zero_le _⟩
      · have hsome : order.getLast? ≠ none := by
          intro hnone
          have hlength := congrArg List.length h.nodes
          rw [List.getLast?_eq_none_iff.mp hnone, List.map_nil, List.length_map] at hlength
          exact hempty (List.length_eq_zero_iff.mp hlength.symm)
        have hneither := not_or.mp fun hover => hfits ⟨hover, hsome⟩
        exact ⟨Nat.le_of_not_lt hneither.1, by exact_mod_cast Int.not_lt.mp hneither.2⟩

/-! ## Touches -/

/-- `touched` has the latest touch first, and so have the entries. -/
structure Recent (touched : List Text) (entries : List (Text × LRUEntry ν τ)) : Prop where
  order : (entries.map (·.1)).Pairwise fun key other => touched.idxOf key < touched.idxOf other
  touched : ∀ key ∈ entries.map (·.1), key ∈ touched

variable {touched : List Text}

theorem Recent.sublist {entries' : List (Text × LRUEntry ν τ)} (h : Recent touched entries)
    (hsub : entries'.Sublist entries) : Recent touched entries' :=
  ⟨h.order.sublist (hsub.map _), fun key hkey => h.touched key ((hsub.map _).subset hkey)⟩

theorem Recent.touch (h : Recent touched entries) (key : Text) (entry : LRUEntry ν τ) :
    Recent (key :: touched) ((key, entry) :: entries.filter (·.1 ≠ key)) := by
  have hother : ∀ other ∈ (entries.filter (·.1 ≠ key)).map (·.1), other ≠ key ∧ other ∈ entries.map (·.1) := by
    intro other hmem
    obtain ⟨stored, hstored, rfl⟩ := List.mem_map.mp hmem
    obtain ⟨hstored, hne⟩ := List.mem_filter.mp hstored
    exact ⟨by simpa using hne, List.mem_map_of_mem hstored⟩
  constructor
  · rw [List.map_cons, List.pairwise_cons]
    constructor
    · intro other hmem
      rw [List.idxOf_cons_self, List.idxOf_cons_ne _ (hother other hmem).1.symm]
      exact Nat.succ_pos _
    · refine (h.order.sublist (List.filter_sublist.map _)).imp_of_mem fun hmem hmem' hlt => ?_
      rw [List.idxOf_cons_ne _ (hother _ hmem).1.symm, List.idxOf_cons_ne _ (hother _ hmem').1.symm]
      exact Nat.succ_lt_succ hlt
  · intro other hmem
    rw [List.map_cons] at hmem
    rcases List.mem_cons.mp hmem with rfl | hmem
    · exact List.mem_cons_self
    · exact List.mem_cons_of_mem _ (h.touched other (hother other hmem).2)

/-! ## Entries that are touched or stored -/

theorem Sound.moveToFront (h : Sound cache (before ++ id :: behind) (x ++ (key, entry) :: z))
    (hbefore : before.map cache.nodes = x.map fun stored => some (asNode stored)) (hnode : cache.nodes id = some ⟨key, entry⟩)
    (hbehind : behind.map cache.nodes = z.map fun stored => some (asNode stored)) :
    Sound { cache with listManager := cache.listManager.moveToFront id } (id :: (before ++ behind)) ((key, entry) :: (x ++ z)) := by
  have hentries : ((key, entry) :: (x ++ z)).Perm (x ++ (key, entry) :: z) := List.perm_middle.symm
  have horder : (id :: (before ++ behind)).Perm (before ++ id :: behind) := List.perm_middle.symm
  refine ⟨h.listed.moveToFront, ?_, fun other id' => ?_, ?_, ?_, fun tag other => ?_, h.tight, h.fresh⟩
  · rw [List.map_cons, List.map_append, hbefore, hnode, hbehind, List.map_cons, List.map_append]
    rfl
  · rw [h.stored other id', horder.mem_iff]
  · exact (hentries.map _).nodup_iff.mpr h.keys
  · rw [h.size, bytes, bytes, (hentries.map _).sum_eq]
  · rw [h.tags]
    simp only [hentries.mem_iff]

theorem Sound.touch (h : Sound cache order entries) (hfound : cache.nodeOf key = some (id, node)) :
    ∃ order', Sound { cache with listManager := cache.listManager.moveToFront id } (id :: order')
      ((key, node.entry) :: entries.filter (·.1 ≠ key)) := by
  obtain ⟨hnode, hid, before, behind, x, z, rfl, rfl, hbefore, hbehind⟩ := h.split hfound
  rw [(filter_key h.keys).1]
  exact ⟨_, h.moveToFront hbefore (hid.trans (congrArg some hnode)) hbehind⟩

theorem Sound.replaced {old : LRUEntry ν τ} (h : Sound cache (id :: order) ((key, old) :: entries)) (entry : LRUEntry ν τ) :
    Sound { cache with
      tagIndex := EntryManager.updateTagIndex (entry.tags.getD []) key
        (EntryManager.cleanupTags (old.tags.getD []) key cache.tagIndex)
      nodes := update cache.nodes id (some ⟨key, entry⟩)
      currentSize := cache.currentSize + (entry.size - old.size) } (id :: order) ((key, entry) :: entries) := by
  have hnew := (List.nodup_cons.mp h.listed.nodup).1
  have hkey := (List.nodup_cons.mp h.keys).1
  obtain ⟨hid, hrest⟩ := List.cons.inj h.nodes
  have hsame : ∀ id' ∈ order, update cache.nodes id (some ⟨key, entry⟩) id' = cache.nodes id' := by
    intro id' hid'
    have hne : id' ≠ id := fun heq => hnew (heq ▸ hid')
    exact update_of_ne hne _ _
  refine ⟨h.listed, ?_, fun other id' => ?_, h.keys, ?_, fun tag other => ?_, ?_, fun id' hid' => ?_⟩
  · dsimp only
    rw [List.map_cons, List.map_cons, update_self, List.map_congr_left hsame, hrest]
    rfl
  · dsimp only
    rw [h.stored other id']
    refine and_congr_right fun hmem => ?_
    rcases List.mem_cons.mp hmem with rfl | hmem
    · simp only [update_self, hid, asNode, Option.some.injEq, LRUNode.mk.injEq]
      constructor
      · rintro ⟨_, rfl, -⟩
        exact ⟨entry, rfl, rfl⟩
      · rintro ⟨_, rfl, -⟩
        exact ⟨old, rfl, rfl⟩
    · rw [hsame id' hmem]
  · show cache.currentSize + (entry.size - old.size) = _
    rw [h.size]
    simp only [bytes, List.map_cons, List.sum_cons]
    omega
  · dsimp only
    rw [mem_updateTagIndex, mem_cleanupTags, h.tags]
    have hother {kept : LRUEntry ν τ} (hmem : (other, kept) ∈ entries) : other ≠ key := by
      rintro rfl
      exact hkey (List.mem_map.mpr ⟨_, hmem, rfl⟩)
    constructor
    · rintro (⟨⟨kept, hmem, hcarries⟩, hnot⟩ | ⟨htag, rfl⟩)
      · refine ⟨kept, List.mem_cons_of_mem _ ?_, hcarries⟩
        rcases List.mem_cons.mp hmem with heq | hmem
        · cases heq
          exact absurd ⟨hcarries, rfl⟩ hnot
        · exact hmem
      · exact ⟨entry, List.mem_cons_self, htag⟩
    · rintro ⟨kept, hmem, hcarries⟩
      rcases List.mem_cons.mp hmem with heq | hmem
      · cases heq
        exact .inr ⟨hcarries, rfl⟩
      · exact .inl ⟨⟨kept, List.mem_cons_of_mem _ hmem, hcarries⟩, fun hnot => hother hmem hnot.2⟩
  · exact SetIndex.tight_foldl (fun index tag htight => SetIndex.tight_add htight tag key) _
      (SetIndex.tight_foldl (fun index tag htight => SetIndex.tight_remove htight tag key) _ h.tight)
  · have hne : id' ≠ id := by
      rintro rfl
      have := h.fresh id' hid'
      rw [hid] at this
      cases this
    show update cache.nodes id _ id' = none
    rw [update_of_ne hne]
    exact h.fresh id' hid'

theorem Sound.added (h : Sound cache order entries) (hkey : key ∉ entries.map (·.1)) (entry : LRUEntry ν τ) :
    Sound { cache with
      tagIndex := EntryManager.updateTagIndex (entry.tags.getD []) key cache.tagIndex
      nodes := update cache.nodes cache.allocated (some ⟨key, entry⟩)
      allocated := cache.allocated + 1
      store := cache.store.set key cache.allocated
      listManager := cache.listManager.addToFront cache.allocated
      currentSize := cache.currentSize + entry.size } (cache.allocated :: order) ((key, entry) :: entries) := by
  have hnone := h.fresh cache.allocated (Nat.le_refl _)
  have hnodes : ∀ id' ∈ order, cache.nodes id' ≠ none := by
    intro id' hid' hnode
    have hmem : cache.nodes id' ∈ order.map cache.nodes := List.mem_map_of_mem hid'
    rw [h.nodes, hnode] at hmem
    obtain ⟨_, -, heq⟩ := List.mem_map.mp hmem
    cases heq
  have hnew : cache.allocated ∉ order := fun hmem => hnodes _ hmem hnone
  have hsame : ∀ id' ∈ order, update cache.nodes cache.allocated (some ⟨key, entry⟩) id' = cache.nodes id' := by
    intro id' hid'
    have hne : id' ≠ cache.allocated := fun heq => hnew (heq ▸ hid')
    exact update_of_ne hne _ _
  refine ⟨h.listed.addToFront hnew, ?_, fun other id' => ?_, List.nodup_cons.mpr ⟨hkey, h.keys⟩, ?_, fun tag other => ?_, ?_,
    fun id' hid' => ?_⟩
  · dsimp only
    rw [List.map_cons, List.map_cons, update_self, List.map_congr_left hsame, h.nodes]
    rfl
  · dsimp only
    rw [OrdMap.get?_set]
    by_cases hother : other = key
    · subst hother
      rw [if_pos rfl, Option.some_inj]
      constructor
      · rintro rfl
        exact ⟨List.mem_cons_self, entry, update_self _ _ _⟩
      · rintro ⟨hmem, kept, hkept⟩
        rcases List.mem_cons.mp hmem with rfl | hmem
        · rfl
        · rw [hsame id' hmem] at hkept
          exact absurd (List.mem_map.mpr ⟨_, h.mem_of_node hmem hkept, rfl⟩) hkey
    · rw [if_neg hother, h.stored other id']
      constructor
      · rintro ⟨hmem, kept, hkept⟩
        exact ⟨List.mem_cons_of_mem _ hmem, kept, (hsame id' hmem).trans hkept⟩
      · rintro ⟨hmem, kept, hkept⟩
        rcases List.mem_cons.mp hmem with rfl | hmem
        · rw [update_self] at hkept
          cases hkept
          exact absurd rfl hother
        · exact ⟨hmem, kept, (hsame id' hmem) ▸ hkept⟩
  · show cache.currentSize + entry.size = _
    rw [h.size]
    simp only [bytes, List.map_cons, List.sum_cons]
    omega
  · show other ∈ SetIndex.members (EntryManager.updateTagIndex _ _ _) tag ↔ _
    rw [mem_updateTagIndex, h.tags]
    constructor
    · rintro (⟨kept, hmem, hcarries⟩ | ⟨htag, rfl⟩)
      · exact ⟨kept, List.mem_cons_of_mem _ hmem, hcarries⟩
      · exact ⟨entry, List.mem_cons_self, htag⟩
    · rintro ⟨kept, hmem, hcarries⟩
      rcases List.mem_cons.mp hmem with heq | hmem
      · cases heq
        exact .inr ⟨hcarries, rfl⟩
      · exact .inl ⟨kept, hmem, hcarries⟩
  · exact SetIndex.tight_foldl (fun index tag htight => SetIndex.tight_add htight tag key) _ h.tight
  · show update cache.nodes cache.allocated _ id' = none
    rw [update_of_ne (by simp only at hid'; omega)]
    exact h.fresh id' (Nat.le_of_succ_le hid')

/-- What `set` leaves before a limit is enforced. -/
def LRUCacheAdapter.store' (cache : LRUCacheAdapter ν τ) (key : Text) (entry : LRUEntry ν τ) : LRUCacheAdapter ν τ :=
  let stored := match cache.nodeOf key with
    | some (id, node) => cache.updateExistingEntry id node entry key
    | none => cache.createNewEntry key entry
  { stored with tagIndex := EntryManager.updateTagIndex (entry.tags.getD []) key stored.tagIndex }

theorem Sound.store' (h : Sound cache order entries) (key : Text) (entry : LRUEntry ν τ) :
    ∃ order', Sound (cache.store' key entry) order' ((key, entry) :: entries.filter (·.1 ≠ key)) ∧
      (cache.store' key entry).evicted = cache.evicted := by
  rw [LRUCacheAdapter.store']
  cases hfound : cache.nodeOf key with
  | none =>
    have hkey := h.notMem_of_nodeOf hfound
    rw [(filter_key_of_notMem hkey).1]
    exact ⟨_, h.added hkey entry, rfl⟩
  | some found =>
    obtain ⟨id, node⟩ := found
    obtain ⟨order', htouched⟩ := h.touch hfound
    obtain ⟨hnode, -⟩ := h.split hfound
    have hreplaced := htouched.replaced entry
    refine ⟨id :: order', ?_, rfl⟩
    obtain ⟨key', ⟨value, size, expiry, tags⟩⟩ := node
    obtain ⟨rfl, -⟩ := LRUNode.mk.inj hnode
    match tags with
    | none => exact hreplaced
    | some [] => exact hreplaced
    | some (_ :: _) => exact hreplaced

theorem reports_filter_perm (entries : List (Text × LRUEntry ν τ)) (p : Text × LRUEntry ν τ → Bool) :
    (reports entries).Perm (reports (entries.filter fun stored => !p stored) ++ reports (entries.filter p)) := by
  rw [← reports_append]
  exact ((List.filter_append_perm p entries).symm.trans List.perm_append_comm).map _

theorem Sound.eraseTag {tag : Text} (h : Sound cache order entries) (hnone : ∀ key entry, (key, entry) ∈ entries → ¬ entry.carries tag) :
    Sound { cache with tagIndex := cache.tagIndex.erase tag } order entries := by
  refine ⟨h.listed, h.nodes, h.stored, h.keys, h.size, fun other key => ?_, fun other => ?_, h.fresh⟩
  · by_cases hsame : other = tag
    · subst hsame
      refine iff_of_false (by simp [SetIndex.members, OrdMap.get?_erase]) ?_
      rintro ⟨entry, hmem, hcarries⟩
      exact hnone key entry hmem hcarries
    · rw [← h.tags, SetIndex.members, SetIndex.members, OrdMap.get?_erase, if_neg hsame]
  · show (cache.tagIndex.erase tag).get? other ≠ some []
    rw [OrdMap.get?_erase]
    split
    · simp
    · exact h.tight other

theorem Sound.clear (h : Sound cache order entries) :
    Sound cache.clear [] [] ∧ ∃ new, cache.clear.evicted = cache.evicted ++ new ∧ (reports entries).Perm new := by
  refine ⟨⟨LinkedList.represents_clear _, rfl, fun _ _ => by simp [LRUCacheAdapter.clear], List.nodup_nil, rfl,
    fun _ _ => by simp [LRUCacheAdapter.clear, SetIndex.members], fun _ => by simp [LRUCacheAdapter.clear], h.fresh⟩, _, rfl, ?_⟩
  -- the map and the list hold the same nodes
  have hkey {key : Text} {id : Nat} (hmem : (key, id) ∈ cache.store.entries) :
      id ∈ order ∧ ∃ entry, cache.nodes id = some ⟨key, entry⟩ :=
    (h.stored key id).mp ((OrdMap.get?_eq_some _ _ _).mpr hmem)
  have hvalues : (cache.store.entries.map (·.2)).Nodup := by
    refine List.Nodup.map_on ?_ (List.Nodup.of_map _ cache.store.nodup)
    rintro ⟨key, id⟩ hmem ⟨other, id'⟩ hmem' rfl
    obtain ⟨-, entry, hnode⟩ := hkey hmem
    obtain ⟨-, entry', hnode'⟩ := hkey hmem'
    obtain ⟨rfl, -⟩ := LRUNode.mk.inj (Option.some.inj (hnode.symm.trans hnode'))
    rfl
  have hperm : (cache.store.entries.map (·.2)).Perm order := by
    refine (List.perm_ext_iff_of_nodup hvalues h.listed.nodup).mpr fun id => ?_
    constructor
    · intro hid
      obtain ⟨⟨key, id'⟩, hmem, rfl⟩ := List.mem_map.mp hid
      exact (hkey hmem).1
    · intro hid
      have hnode : cache.nodes id ∈ order.map cache.nodes := List.mem_map_of_mem hid
      rw [h.nodes] at hnode
      obtain ⟨⟨key, entry⟩, -, hnode⟩ := List.mem_map.mp hnode
      have hget := (h.stored key id).mpr ⟨hid, entry, hnode.symm⟩
      exact List.mem_map.mpr ⟨(key, id), (OrdMap.get?_eq_some _ _ _).mp hget, rfl⟩
  have hlisted : reports entries = order.filterMap fun id => (cache.nodes id).map fun node => (node.key, node.entry.value) := by
    have hcomp : (fun id => (cache.nodes id).map fun node => (node.key, node.entry.value)) =
        (fun node : Option (LRUNode ν τ) => node.map fun node => (node.key, node.entry.value)) ∘ cache.nodes := rfl
    rw [hcomp, ← List.filterMap_map, h.nodes, List.filterMap_map, reports, ← List.filterMap_eq_map]
    rfl
  rw [hlisted]
  refine (hperm.symm.filterMap _).trans (.of_eq ?_)
  rw [List.filterMap_map]
  refine List.filterMap_congr fun stored hmem => ?_
  obtain ⟨-, entry, hnode⟩ := hkey hmem
  simp [hnode]

section Runs

variable [Add τ]

def newEntry (cache : LRUCacheAdapter ν τ) (now : τ) (value : ν) (size : Nat) (ttlMs : Option τ) (tags : Option (List Text)) :
    LRUEntry ν τ :=
  ⟨value, size, EntryManager.calculateExpiry now ttlMs cache.defaultTtlMs, tags⟩

theorem set_eq (cache : LRUCacheAdapter ν τ) (now : τ) (key : Text) (value : ν) (ttlMs : Option τ) (tags : Option (List Text)) :
    cache.set now key value ttlMs tags = (cache.estimateSizeOf value).map fun size =>
      enforceMemoryLimits (cache.store' key (newEntry cache now value size ttlMs tags)).store.size
        (cache.store' key (newEntry cache now value size ttlMs tags)) := by
  rw [LRUCacheAdapter.set]
  congr 1
  funext size
  cases tags with
  | none => rfl
  | some tags =>
    cases tags with
    | nil => rfl
    | cons tag tags => rfl

variable [LE τ] [DecidableLE τ]

/-! ## Runs -/

def touchedBy : Call ν τ → Reply ν → Option Text
  | .get _ key, .value (some _) => some key
  | .has _ key, .present true => some key
  | .set _ key .., .done => some key
  | _, _ => none

/-- A cache and the keys that were touched, the latest first. -/
def step (state : LRUCacheAdapter ν τ × List Text) (call : Call ν τ) : LRUCacheAdapter ν τ × List Text :=
  ((state.1.apply call).2, (touchedBy call (state.1.apply call).1).toList ++ state.2)

def run (options : Options ν τ) (calls : List (Call ν τ)) : LRUCacheAdapter ν τ × List Text :=
  calls.foldl step (LRUCacheAdapter.create options, [])

/-- What one call does to the entries: `gone` are those that a limit drove out, `new` is what `onEvict` is told. -/
def Effect (cache : LRUCacheAdapter ν τ) (entries entries' : List (Text × LRUEntry ν τ)) (new : List (Text × ν)) :
    Call ν τ → Prop
  | .set now key value ttlMs tags =>
    match cache.estimateSizeOf value with
    | some size =>
      ∃ gone, (key, newEntry cache now value size ttlMs tags) :: entries.filter (·.1 ≠ key) = entries' ++ gone ∧
        new = reports gone.reverse ∧ Within cache entries' ∧
        ∀ last rest, gone = last :: rest → ¬ Within cache (entries' ++ [last])
    | none => (cache.apply (.set now key value ttlMs tags)).2 = cache ∧ new = []
  | _ => (reports entries).Perm (reports entries' ++ new)

theorem Sound.apply (h : Sound cache order entries) (hrecent : Recent touched entries) (call : Call ν τ) :
    ∃ order' entries' new, Sound (step (cache, touched) call).1 order' entries' ∧
      Recent (step (cache, touched) call).2 entries' ∧ (step (cache, touched) call).1.evicted = cache.evicted ++ new ∧
      Effect cache entries entries' new call := by
  -- a look-up of a key
  have hlookup {now : τ} {key : Text} {found : Nat × LRUNode ν τ} (hfound : cache.nodeOf key = some found) :
      ∃ order' entries' new,
        Sound (if isExpired found.2.entry now then cache.delete key
            else { cache with listManager := cache.listManager.moveToFront found.1 }) order' entries' ∧
          Recent (if isExpired found.2.entry now then touched else key :: touched) entries' ∧
          (if isExpired found.2.entry now then cache.delete key
            else { cache with listManager := cache.listManager.moveToFront found.1 }).evicted = cache.evicted ++ new ∧
          (reports entries).Perm (reports entries' ++ new) := by
    by_cases hexpired : isExpired found.2.entry now = true
    · simp only [hexpired, if_true]
      obtain ⟨order', hsound, hevicted⟩ := h.delete key
      refine ⟨order', _, _, hsound, hrecent.sublist List.filter_sublist, hevicted, ?_⟩
      have := reports_filter_perm entries fun stored => decide (stored.1 = key)
      simpa using this
    · simp only [if_neg hexpired]
      obtain ⟨order', hsound⟩ := h.touch hfound
      obtain ⟨hnode, -, before, behind, x, z, -, rfl, -⟩ := h.split hfound
      refine ⟨_, _, [], hsound, hrecent.touch key found.2.entry, (List.append_nil _).symm, ?_⟩
      rw [List.append_nil, (filter_key h.keys).1]
      exact List.perm_middle.map _
  have hnothing : ∃ order' entries' new, Sound cache order' entries' ∧ Recent touched entries' ∧
      cache.evicted = cache.evicted ++ new ∧ (reports entries).Perm (reports entries' ++ new) :=
    ⟨order, entries, [], h, hrecent, (List.append_nil _).symm, by rw [List.append_nil]⟩
  have hgone (keys : List Text) {new : List (Text × ν)} (hperm : new.Perm (reports (entries.filter (·.1 ∈ keys)))) :
      (reports entries).Perm (reports (entries.filter (·.1 ∉ keys)) ++ new) := by
    have hsplit := reports_filter_perm entries fun stored => decide (stored.1 ∈ keys)
    simp only [← decide_not] at hsplit
    exact hsplit.trans (hperm.symm.append_left _)
  cases call with
  | get now key =>
    cases hfound : cache.nodeOf key with
    | none =>
      have hstep : step (cache, touched) (.get now key) = (cache, touched) := by
        simp [step, LRUCacheAdapter.apply, LRUCacheAdapter.get, hfound, touchedBy]
      rw [hstep]
      exact hnothing
    | some found =>
      have hstep : step (cache, touched) (.get now key) =
          (if isExpired found.2.entry now then cache.delete key
            else { cache with listManager := cache.listManager.moveToFront found.1 },
          if isExpired found.2.entry now then touched else key :: touched) := by
        simp only [step, LRUCacheAdapter.apply, LRUCacheAdapter.get, hfound]
        split <;> simp [touchedBy]
      rw [hstep]
      exact hlookup hfound
  | has now key =>
    cases hfound : cache.nodeOf key with
    | none =>
      have hstep : step (cache, touched) (.has now key) = (cache, touched) := by
        simp [step, LRUCacheAdapter.apply, LRUCacheAdapter.has, hfound, touchedBy]
      rw [hstep]
      exact hnothing
    | some found =>
      have hstep : step (cache, touched) (.has now key) =
          (if isExpired found.2.entry now then cache.delete key
            else { cache with listManager := cache.listManager.moveToFront found.1 },
          if isExpired found.2.entry now then touched else key :: touched) := by
        simp only [step, LRUCacheAdapter.apply, LRUCacheAdapter.has, hfound]
        split <;> simp [touchedBy]
      rw [hstep]
      exact hlookup hfound
  | set now key value ttlMs tags =>
    cases hsize : cache.estimateSizeOf value with
    | none =>
      have happly : cache.apply (.set now key value ttlMs tags) = (.threw, cache) := by
        simp [LRUCacheAdapter.apply, set_eq, hsize]
      have hstep : step (cache, touched) (.set now key value ttlMs tags) = (cache, touched) := by
        simp [step, happly, touchedBy]
      rw [hstep]
      refine ⟨order, entries, [], h, hrecent, (List.append_nil _).symm, ?_⟩
      simp [Effect, hsize, happly]
    | some size =>
      obtain ⟨order', hsound, hevicted⟩ := h.store' key (newEntry cache now value size ttlMs tags)
      obtain ⟨order'', kept, gone, hsplit, hsound', hevicted', hwithin, hneeded⟩ :=
        hsound.enforceMemoryLimits (Nat.le_of_eq hsound.store_size.symm)
      have hlimits : ∀ list : List (Text × LRUEntry ν τ),
          Within (cache.store' key (newEntry cache now value size ttlMs tags)) list ↔ Within cache list := by
        intro list
        rw [LRUCacheAdapter.store']
        cases cache.nodeOf key <;> exact Iff.rfl
      have hstep : step (cache, touched) (.set now key value ttlMs tags) =
          (EvictionManager.enforceMemoryLimits (cache.store' key (newEntry cache now value size ttlMs tags)).store.size
            (cache.store' key (newEntry cache now value size ttlMs tags)), key :: touched) := by
        simp [step, LRUCacheAdapter.apply, set_eq, hsize, touchedBy]
      rw [hstep]
      refine ⟨order'', kept, _, hsound', ?_, hevicted ▸ hevicted', ?_⟩
      · refine (hrecent.touch key (newEntry cache now value size ttlMs tags)).sublist ?_
        rw [hsplit]
        exact List.sublist_append_left _ _
      · simp only [Effect, hsize]
        exact ⟨gone, hsplit, rfl, (hlimits kept).mp hwithin, fun last rest heq => fun h => hneeded last rest heq ((hlimits _).mpr h)⟩
  | delete key =>
    obtain ⟨order', hsound, hevicted⟩ := h.delete key
    refine ⟨order', _, _, hsound, hrecent.sublist List.filter_sublist, hevicted, ?_⟩
    have := reports_filter_perm entries fun stored => decide (stored.1 = key)
    simpa [Effect] using this
  | invalidateTag tag =>
    cases hget : cache.tagIndex.get? tag with
    | none =>
      have hstep : step (cache, touched) (.invalidateTag tag) = (cache, touched) := by
        simp [step, LRUCacheAdapter.apply, LRUCacheAdapter.invalidateTag, hget, touchedBy]
      rw [hstep]
      exact hnothing
    | some keys =>
      obtain ⟨order', new, hsound, hevicted, hperm⟩ := h.deleteAll keys
      have hstep : step (cache, touched) (.invalidateTag tag) =
          ({ keys.foldl LRUCacheAdapter.delete cache with
            tagIndex := (keys.foldl LRUCacheAdapter.delete cache).tagIndex.erase tag }, touched) := by
        simp [step, LRUCacheAdapter.apply, LRUCacheAdapter.invalidateTag, hget, touchedBy]
      rw [hstep]
      refine ⟨order', _, new, hsound.eraseTag fun key entry hmem hcarries => ?_, hrecent.sublist List.filter_sublist, hevicted, ?_⟩
      · obtain ⟨hmem, hnot⟩ := List.mem_filter.mp hmem
        have hkey : key ∈ SetIndex.members cache.tagIndex tag := (h.tags tag key).mpr ⟨entry, hmem, hcarries⟩
        rw [SetIndex.members, hget] at hkey
        exact (of_decide_eq_true hnot) hkey
      · exact hgone keys hperm
  | cleanupExpired now =>
    obtain ⟨order', new, hsound, hevicted, hperm⟩ := h.deleteAll
      ((cache.store.entries.filter fun stored => (cache.nodes stored.2).any fun node => isExpired node.entry now).map (·.1))
    exact ⟨order', _, new, hsound, hrecent.sublist List.filter_sublist, hevicted, hgone _ hperm⟩
  | clear =>
    obtain ⟨hsound, new, hevicted, hperm⟩ := h.clear
    exact ⟨[], [], new, hsound, hrecent.sublist (List.nil_sublist _), hevicted, hperm⟩

theorem run_append (options : Options ν τ) (calls : List (Call ν τ)) (call : Call ν τ) :
    run options (calls ++ [call]) = step (run options calls) call := List.foldl_concat ..

theorem sound_run (options : Options ν τ) (calls : List (Call ν τ)) :
    ∃ order entries, Sound (run options calls).1 order entries ∧ Recent (run options calls).2 entries := by
  induction calls using List.reverseRecOn with
  | nil => exact ⟨[], [], sound_create options, List.Pairwise.nil, nofun⟩
  | append_singleton calls call ih =>
    obtain ⟨order, entries, hsound, hrecent⟩ := ih
    obtain ⟨order', entries', -, hsound', hrecent', -⟩ := hsound.apply hrecent call
    rw [run_append]
    exact ⟨order', entries', hsound', hrecent'⟩

/-- After any calls the map, the list, the index and the bytes agree on the entries, which are in the order
of the last touches, and a next call keeps that and does to them what `Effect` says. -/
theorem run_sound (options : Options ν τ) (calls : List (Call ν τ)) :
    ∃ order entries, Sound (run options calls).1 order entries ∧ Recent (run options calls).2 entries ∧
      ∀ call, ∃ order' entries' new, Sound (step (run options calls) call).1 order' entries' ∧
        Recent (step (run options calls) call).2 entries' ∧
        (step (run options calls) call).1.evicted = (run options calls).1.evicted ++ new ∧
        Effect (run options calls).1 entries entries' new call := by
  obtain ⟨order, entries, hsound, hrecent⟩ := sound_run options calls
  exact ⟨order, entries, hsound, hrecent, fun call => hsound.apply hrecent call⟩

end Runs

end Veryfront.LruCache
