import Veryfront.Lib.LinkedList
import Veryfront.Lib.SetIndex
import Veryfront.Utils.Text

/-!
# The LRU cache

A map from keys to nodes, a list of the nodes from the most to the least recently touched, an index from tags to keys, and
the bytes in use.
-/

namespace Veryfront.LruCache

open Lib Function

variable {ν τ : Type}

structure LRUEntry (ν τ : Type) where
  value : ν
  size : Nat
  expiry : Option τ
  tags : Option (List Text)

/-- The links of a node are kept in the list. -/
structure LRUNode (ν τ : Type) where
  key : Text
  entry : LRUEntry ν τ

/-- `estimateSizeOf` is `none` where it throws. -/
structure Options (ν τ : Type) where
  maxEntries : Option Nat
  maxSizeBytes : Option Nat
  ttlMs : Option τ
  estimateSizeOf : ν → Option Nat

abbrev TagIndex := OrdMap Text (List Text)

structure LRUCacheAdapter (ν τ : Type) where
  store : OrdMap Text Nat
  tagIndex : TagIndex
  listManager : LinkedList Nat
  nodes : Nat → Option (LRUNode ν τ)
  allocated : Nat
  currentSize : Int
  maxEntries : Nat
  maxSizeBytes : Nat
  defaultTtlMs : Option τ
  estimateSizeOf : ν → Option Nat
  /-- What `onEvict` was called with. An observer that throws is caught. -/
  evicted : List (Text × ν)

namespace EntryManager

def cleanupTags (tags : List Text) (key : Text) (tagIndex : TagIndex) : TagIndex :=
  tags.foldl (fun tagIndex tag => SetIndex.remove tagIndex tag key) tagIndex

def updateTagIndex (tags : List Text) (key : Text) (tagIndex : TagIndex) : TagIndex :=
  tags.foldl (fun tagIndex tag => SetIndex.add tagIndex tag key) tagIndex

def calculateExpiry [Add τ] (now : τ) (ttlMs defaultTtlMs : Option τ) : Option τ :=
  match ttlMs, defaultTtlMs with
  | some ttlMs, _ => some (now + ttlMs)
  | none, some defaultTtlMs => some (now + defaultTtlMs)
  | none, none => none

end EntryManager

namespace EvictionManager

def cleanupTags (tags : List Text) (key : Text) (tagIndex : TagIndex) : TagIndex :=
  tags.foldl (fun tagIndex tag => SetIndex.remove tagIndex tag key) tagIndex

def isExpired [LE τ] [DecidableLE τ] (entry : LRUEntry ν τ) (now : τ) : Bool :=
  match entry.expiry with
  | some expiry => expiry ≤ now
  | none => false

/-- The least recently touched entry goes. -/
def evictLRUFromList (cache : LRUCacheAdapter ν τ) : LRUCacheAdapter ν τ :=
  match cache.listManager.tail with
  | none => cache
  | some tail =>
    match cache.nodes tail with
    | none => cache
    | some node =>
      { cache with
        listManager := cache.listManager.removeNode tail
        store := cache.store.erase node.key
        tagIndex := match node.entry.tags with
          | some tags => cleanupTags tags node.key cache.tagIndex
          | none => cache.tagIndex
        evicted := cache.evicted ++ [(node.key, node.entry.value)]
        currentSize := cache.currentSize - node.entry.size }

/-- `fuel` is a bound on the nodes. -/
def enforceMemoryLimits : (fuel : Nat) → LRUCacheAdapter ν τ → LRUCacheAdapter ν τ
  | 0, cache => cache
  | fuel + 1, cache =>
    if (cache.maxEntries < cache.store.size ∨ cache.maxSizeBytes < cache.currentSize) ∧ cache.listManager.tail ≠ none then
      enforceMemoryLimits fuel (evictLRUFromList cache)
    else cache

end EvictionManager

namespace LRUCacheAdapter

open EvictionManager

/-- A limit of zero is none. -/
def create (options : Options ν τ) : LRUCacheAdapter ν τ where
  store := .empty
  tagIndex := .empty
  listManager := .empty
  nodes := fun _ => none
  allocated := 0
  currentSize := 0
  maxEntries := match options.maxEntries with
    | some maxEntries => if maxEntries = 0 then 1000 else maxEntries
    | none => 1000
  maxSizeBytes := match options.maxSizeBytes with
    | some maxSizeBytes => if maxSizeBytes = 0 then 50 * 1024 * 1024 else maxSizeBytes
    | none => 50 * 1024 * 1024
  defaultTtlMs := options.ttlMs
  estimateSizeOf := options.estimateSizeOf
  evicted := []

def nodeOf (cache : LRUCacheAdapter ν τ) (key : Text) : Option (Nat × LRUNode ν τ) :=
  (cache.store.get? key).bind fun id => (cache.nodes id).map fun node => (id, node)

def delete (cache : LRUCacheAdapter ν τ) (key : Text) : LRUCacheAdapter ν τ :=
  match cache.nodeOf key with
  | none => cache
  | some (id, node) =>
    { cache with
      listManager := cache.listManager.removeNode id
      store := cache.store.erase key
      currentSize := cache.currentSize - node.entry.size
      tagIndex := match node.entry.tags with
        | some tags => EntryManager.cleanupTags tags key cache.tagIndex
        | none => cache.tagIndex
      evicted := cache.evicted ++ [(key, node.entry.value)] }

section Clock

variable [LE τ] [DecidableLE τ] [Add τ]

def get (cache : LRUCacheAdapter ν τ) (now : τ) (key : Text) : Option ν × LRUCacheAdapter ν τ :=
  match cache.nodeOf key with
  | none => (none, cache)
  | some (id, node) =>
    if isExpired node.entry now then (none, cache.delete key)
    else (some node.entry.value, { cache with listManager := cache.listManager.moveToFront id })

def has (cache : LRUCacheAdapter ν τ) (now : τ) (key : Text) : Bool × LRUCacheAdapter ν τ :=
  match cache.nodeOf key with
  | none => (false, cache)
  | some (id, node) =>
    if isExpired node.entry now then (false, cache.delete key)
    else (true, { cache with listManager := cache.listManager.moveToFront id })

def updateExistingEntry (cache : LRUCacheAdapter ν τ) (id : Nat) (node : LRUNode ν τ) (entry : LRUEntry ν τ) (key : Text) :
    LRUCacheAdapter ν τ :=
  { cache with
    tagIndex := match node.entry.tags with
      | some tags => if tags.length ≠ 0 then EntryManager.cleanupTags tags key cache.tagIndex else cache.tagIndex
      | none => cache.tagIndex
    nodes := update cache.nodes id (some { node with entry := entry })
    listManager := cache.listManager.moveToFront id
    currentSize := cache.currentSize + (entry.size - node.entry.size) }

def createNewEntry (cache : LRUCacheAdapter ν τ) (key : Text) (entry : LRUEntry ν τ) : LRUCacheAdapter ν τ :=
  { cache with
    nodes := update cache.nodes cache.allocated (some ⟨key, entry⟩)
    allocated := cache.allocated + 1
    store := cache.store.set key cache.allocated
    listManager := cache.listManager.addToFront cache.allocated
    currentSize := cache.currentSize + entry.size }

/-- `none` where the estimate throws, which it does before anything is changed. -/
def set (cache : LRUCacheAdapter ν τ) (now : τ) (key : Text) (value : ν) (ttlMs : Option τ) (tags : Option (List Text)) :
    Option (LRUCacheAdapter ν τ) :=
  (cache.estimateSizeOf value).map fun size =>
    let entry : LRUEntry ν τ := ⟨value, size, EntryManager.calculateExpiry now ttlMs cache.defaultTtlMs, tags⟩
    let stored := match cache.nodeOf key with
      | some (id, node) => cache.updateExistingEntry id node entry key
      | none => cache.createNewEntry key entry
    let indexed := match tags with
      | some tags =>
        if tags.length ≠ 0 then { stored with tagIndex := EntryManager.updateTagIndex tags key stored.tagIndex } else stored
      | none => stored
    enforceMemoryLimits indexed.store.size indexed

/-- The set that is walked as it is before the walk, which `deleteAll_keeps` allows. -/
def invalidateTag (cache : LRUCacheAdapter ν τ) (tag : Text) : Nat × LRUCacheAdapter ν τ :=
  match cache.tagIndex.get? tag with
  | none => (0, cache)
  | some keys =>
    let cache := keys.foldl delete cache
    (keys.length, { cache with tagIndex := cache.tagIndex.erase tag })

def cleanupExpired (cache : LRUCacheAdapter ν τ) (now : τ) : Nat × LRUCacheAdapter ν τ :=
  let expired := cache.store.entries.filter fun (_, id) => (cache.nodes id).any fun node => isExpired node.entry now
  (expired.length, (expired.map (·.1)).foldl delete cache)

def clear (cache : LRUCacheAdapter ν τ) : LRUCacheAdapter ν τ :=
  { cache with
    evicted := cache.evicted ++ cache.store.entries.filterMap fun (key, id) =>
      (cache.nodes id).map fun node => (key, node.entry.value)
    store := .empty
    tagIndex := .empty
    listManager := cache.listManager.clear
    currentSize := 0 }

end Clock

end LRUCacheAdapter

/-! ## Calls -/

/-- Each call that looks at the clock has what it reads there. -/
inductive Call (ν τ : Type)
  | get (now : τ) (key : Text)
  | has (now : τ) (key : Text)
  | set (now : τ) (key : Text) (value : ν) (ttlMs : Option τ) (tags : Option (List Text))
  | delete (key : Text)
  | invalidateTag (tag : Text)
  | cleanupExpired (now : τ)
  | clear

inductive Reply (ν : Type)
  | value (value : Option ν)
  | present (present : Bool)
  | count (count : Nat)
  | done
  | threw

variable [LE τ] [DecidableLE τ] [Add τ]

def LRUCacheAdapter.apply (cache : LRUCacheAdapter ν τ) : Call ν τ → Reply ν × LRUCacheAdapter ν τ
  | .get now key => let (value, cache) := cache.get now key; (.value value, cache)
  | .has now key => let (present, cache) := cache.has now key; (.present present, cache)
  | .set now key value ttlMs tags =>
    match cache.set now key value ttlMs tags with
    | some cache => (.done, cache)
    | none => (.threw, cache)
  | .delete key => (.done, cache.delete key)
  | .invalidateTag tag => let (count, cache) := cache.invalidateTag tag; (.count count, cache)
  | .cleanupExpired now => let (count, cache) := cache.cleanupExpired now; (.count count, cache)
  | .clear => (.done, cache.clear)

end Veryfront.LruCache
