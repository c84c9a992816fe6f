import Mathlib.Data.Rat.Defs
import Mathlib.Algebra.Order.Ring.Rat
import Veryfront.Lib.OrdMap
import Veryfront.Utils.Text

/-!
# The cache in memory

Entries in the order in which they were stored, with a limit on their number and one on their size. A full store
evicts its oldest entries in a loop until the new one fits. The loop is given fuel; the model says when no fuel is
enough.
-/

namespace Veryfront.Cache

open Lib

/-! ## Patterns of keys -/

def asterisk : Nat := 42

def questionMark : Nat := 63

def maxCacheGlobWildcards : Nat := 64

/-- The position of the last asterisk, and where in the value its text ended. -/
def matchesGlobFrom (pattern value : Text) (patternIndex valueIndex : Nat) (starIndex : Option Nat) (starValueIndex : Nat)
    (h : starValueIndex ≤ valueIndex) : Bool :=
  if hlt : valueIndex < value.length then
    if hchar : pattern[patternIndex]? = some questionMark ∨ pattern[patternIndex]? = some value[valueIndex] then
      matchesGlobFrom pattern value (patternIndex + 1) (valueIndex + 1) starIndex starValueIndex (by omega)
    else if hstar : pattern[patternIndex]? = some asterisk then
      matchesGlobFrom pattern value (patternIndex + 1) valueIndex (some patternIndex) valueIndex (Nat.le_refl _)
    else
      match starIndex with
      | some star => matchesGlobFrom pattern value (star + 1) (starValueIndex + 1) (some star) (starValueIndex + 1) (Nat.le_refl _)
      | none => false
  else patternIndex + ((pattern.drop patternIndex).takeWhile (· = asterisk)).length = pattern.length
termination_by (value.length - starValueIndex, pattern.length - patternIndex)
decreasing_by
  -- An asterisk starts over further on in the value; any other step goes on in the pattern.
  · have hin : patternIndex < pattern.length := by
      rcases hchar with hchar | hchar <;> exact (List.getElem?_eq_some_iff.mp hchar).1
    exact Prod.Lex.right _ (by omega)
  · have hin : patternIndex < pattern.length := (List.getElem?_eq_some_iff.mp hstar).1
    rcases Nat.lt_or_eq_of_le h with hless | heq
    · exact Prod.Lex.left _ _ (by omega)
    · rw [heq]
      exact Prod.Lex.right _ (by omega)
  · exact Prod.Lex.left _ _ (by omega)

structure CacheGlob where
  pattern : Text
deriving DecidableEq

def CacheGlob.test (glob : CacheGlob) (value : Text) : Bool :=
  matchesGlobFrom glob.pattern value 0 0 none 0 (Nat.le_refl _)

def compileCacheGlob (pattern : Text) : Option CacheGlob :=
  if maxCacheGlobWildcards < pattern.countP fun c => c = asterisk ∨ c = questionMark then none else some ⟨pattern⟩

/-! ## Lifetimes -/

def maxCacheTtlSeconds : ℚ := 2147483647

def defaultTtlSeconds : ℚ := 300

/-- A number given as a lifetime; the last kind is an infinity or none at all. -/
inductive TtlArgument
  | finite (seconds : ℚ)
  | notFinite
deriving DecidableEq

/-- `none` where the lifetime is refused with a range error. -/
def resolveCacheTtlSeconds (ttl : Option TtlArgument) : Option ℚ :=
  match ttl with
  | none => some defaultTtlSeconds
  | some (.finite seconds) => if maxCacheTtlSeconds < seconds then none else some seconds
  | some .notFinite => none

/-! ## The store -/

structure MemoryEntry where
  value : Text
  expiresAt : ℚ
  sizeBytes : Nat
deriving DecidableEq

structure MemoryCacheBackend where
  store : OrdMap Text MemoryEntry
  globCache : OrdMap Text CacheGlob
  maxEntries : Nat
  maxSizeBytes : Nat
  currentSizeBytes : Int

namespace MemoryCacheBackend

def create (maxEntries maxSizeBytes : Nat) : MemoryCacheBackend := ⟨.empty, .empty, maxEntries, maxSizeBytes, 0⟩

def estimateSize (key value : Text) : Nat := key.length + value.length

def delete (key : Text) (backend : MemoryCacheBackend) : MemoryCacheBackend :=
  match backend.store.get? key with
  | none => backend
  | some entry =>
    { backend with store := backend.store.erase key, currentSizeBytes := backend.currentSizeBytes - entry.sizeBytes }

def evictOldest (backend : MemoryCacheBackend) : MemoryCacheBackend :=
  match backend.store.keys.head? with
  | none => backend
  | some oldest => if oldest = [] then backend else backend.delete oldest

def overLimits (backend : MemoryCacheBackend) (entrySize : Nat) : Bool :=
  0 < backend.store.size &&
    (backend.maxEntries ≤ backend.store.size || (backend.maxSizeBytes : Int) < backend.currentSizeBytes + entrySize)

/-- The eviction loop; `none` where the fuel is used up. -/
def evictWhileOver (entrySize : Nat) : Nat → MemoryCacheBackend → Option MemoryCacheBackend
  | 0, _ => none
  | fuel + 1, backend =>
    if backend.overLimits entrySize then evictWhileOver entrySize fuel backend.evictOldest else some backend

def insert (key : Text) (entry : MemoryEntry) (backend : MemoryCacheBackend) : MemoryCacheBackend :=
  { backend with
    store := backend.store.set key entry
    currentSizeBytes := backend.currentSizeBytes + entry.sizeBytes }

/-- The store afterwards, and whether the call was refused. -/
abbrev Written := MemoryCacheBackend × Bool

def set (fuel : Nat) (now : ℚ) (key value : Text) (ttl : Option TtlArgument) (backend : MemoryCacheBackend) : Option Written :=
  match resolveCacheTtlSeconds ttl with
  | none => some (backend, true)
  | some ttlSeconds =>
    if ttlSeconds ≤ 0 then some (backend.delete key, false)
    else
      let entrySize := estimateSize key value
      if backend.maxSizeBytes < entrySize then some (backend, false)
      else
        (evictWhileOver entrySize fuel (backend.delete key)).map fun room =>
          (room.insert key ⟨value, now + ttlSeconds * 1000, entrySize⟩, false)

structure BatchEntry where
  key : Text
  value : Text
  ttl : Option TtlArgument
deriving DecidableEq

/-- A refused lifetime ends the batch, and what was written before it stays. -/
def setBatch (fuel : Nat) (now : ℚ) : List BatchEntry → MemoryCacheBackend → Option Written
  | [], backend => some (backend, false)
  | entry :: entries, backend =>
    match resolveCacheTtlSeconds entry.ttl with
    | none => some (backend, true)
    | some ttlSeconds =>
      if ttlSeconds ≤ 0 then setBatch fuel now entries (backend.delete entry.key)
      else
        let entrySize := estimateSize entry.key entry.value
        if backend.maxSizeBytes < entrySize then setBatch fuel now entries backend
        else
          match evictWhileOver entrySize fuel (backend.delete entry.key) with
          | none => none
          | some room =>
            setBatch fuel now entries (room.insert entry.key ⟨entry.value, now + ttlSeconds * 1000, entrySize⟩)

def get (now : ℚ) (key : Text) (backend : MemoryCacheBackend) : MemoryCacheBackend × Option Text :=
  match backend.store.get? key with
  | none => (backend, none)
  | some entry => if entry.expiresAt < now then (backend.delete key, none) else (backend, some entry.value)

def getRemainingTtlSeconds (now : ℚ) (key : Text) (backend : MemoryCacheBackend) : MemoryCacheBackend × Option ℚ :=
  match backend.store.get? key with
  | none => (backend, none)
  | some entry =>
    let remainingMs := entry.expiresAt - now
    if remainingMs ≤ 0 then (backend.delete key, none) else (backend, some (remainingMs / 1000))

def getBatch (now : ℚ) (keys : List Text) (backend : MemoryCacheBackend) :
    MemoryCacheBackend × OrdMap Text (Option Text) :=
  keys.foldl (fun (backend, results) key =>
    let (backend, value) := backend.get now key
    (backend, results.set key value)) (backend, .empty)

def maxGlobCacheSize : Nat := 100

def globOf (pattern : Text) (backend : MemoryCacheBackend) : MemoryCacheBackend × Option CacheGlob :=
  match backend.globCache.get? pattern with
  | some glob => (backend, some glob)
  | none =>
    match compileCacheGlob pattern with
    | none => (backend, none)
    | some glob =>
      let globCache :=
        match backend.globCache.keys.head? with
        | some first =>
          if maxGlobCacheSize ≤ backend.globCache.size ∧ first ≠ [] then backend.globCache.erase first
          else backend.globCache
        | none => backend.globCache
      ({ backend with globCache := globCache.set pattern glob }, some glob)

def delByPattern (pattern : Text) (backend : MemoryCacheBackend) : MemoryCacheBackend × Nat :=
  let (backend, glob) := backend.globOf pattern
  match glob with
  | none => (backend, 0)
  | some glob =>
    let keys := backend.store.keys.filter glob.test
    (keys.foldl (fun backend key => backend.delete key) backend, keys.length)

def clear (backend : MemoryCacheBackend) : MemoryCacheBackend :=
  { backend with store := .empty, globCache := .empty, currentSizeBytes := 0 }

/-! ## Operations, one after the other -/

inductive Operation
  | set (key value : Text) (ttl : Option TtlArgument)
  | setBatch (entries : List BatchEntry)
  | get (key : Text)
  | getBatch (keys : List Text)
  | getRemainingTtlSeconds (key : Text)
  | del (key : Text)
  | delByPattern (pattern : Text)
  | clear
deriving DecidableEq

/-- An operation and what the clock reads. -/
structure Call where
  operation : Operation
  now : ℚ
deriving DecidableEq

def apply (fuel : Nat) (backend : MemoryCacheBackend) (call : Call) : Option MemoryCacheBackend :=
  match call.operation with
  | .set key value ttl => (backend.set fuel call.now key value ttl).map Prod.fst
  | .setBatch entries => (backend.setBatch fuel call.now entries).map Prod.fst
  | .get key => some (backend.get call.now key).1
  | .getBatch keys => some (backend.getBatch call.now keys).1
  | .getRemainingTtlSeconds key => some (backend.getRemainingTtlSeconds call.now key).1
  | .del key => some (backend.delete key)
  | .delByPattern pattern => some (backend.delByPattern pattern).1
  | .clear => some backend.clear

def applyAll (fuel : Nat) (backend : MemoryCacheBackend) (calls : List Call) : Option MemoryCacheBackend :=
  calls.foldlM (apply fuel) backend

end MemoryCacheBackend

end Veryfront.Cache
