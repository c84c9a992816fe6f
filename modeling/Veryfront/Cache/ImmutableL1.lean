import Veryfront.Lib.SetIndex
import Veryfront.Utils.Text
import Mathlib.Algebra.Order.Floor.Ring
import Mathlib.Data.Rat.Floor

/-!
# The immutable file cache

Values of immutable release files, kept in process under the scope whose credentials read them. A hit is
served without asking the backend, so an entry lives for a short time from the start of its read, and a
read that was in flight during an invalidation of its key admits nothing. The clock readings are arguments
of the calls, as exact numbers. A lifetime that is missing or not finite is `none`.
-/

namespace Veryfront.Cache

open Lib

def bytesPerValueChar : Nat := 2

def scopeSeparator : Nat := 0

def colon : Nat := 58

def immutableKeyPrefixSegments : Nat := 4

structure ImmutableL1Entry where
  cacheKey : Text
  bucketPrefix : Text
  value : Text
  valueBytes : Nat
  readStartedAtElapsedMs : ℚ
  expiresAtElapsedMs : ℚ
deriving DecidableEq

structure ImmutableL1ReadToken where
  key : Nat
  sweep : Nat
  startedAtElapsedMs : ℚ
  startedAtWallClockMs : ℚ
deriving DecidableEq

/-! ## The ceilings -/

def sanitizeCeiling (value : Option ℚ) (fallback : Nat) : Nat :=
  match value with
  | none => fallback
  | some value => if value < 0 then fallback else ⌊value⌋.toNat

structure ImmutableL1Ceilings where
  maxEntries : Nat
  maxTotalBytes : Nat
  maxValueBytes : Nat
  value_le_total : maxValueBytes ≤ maxTotalBytes

structure ImmutableL1Options where
  maxEntries : Option ℚ
  maxValueBytes : Option ℚ
  maxTotalBytes : Option ℚ

/-- The configured values stand in for the options that are missing or unusable. -/
def ImmutableL1Options.ceilings (options : ImmutableL1Options) (maxEntries maxValueBytes maxTotalBytes : Nat) :
    ImmutableL1Ceilings where
  maxEntries := sanitizeCeiling options.maxEntries maxEntries
  maxTotalBytes := sanitizeCeiling options.maxTotalBytes maxTotalBytes
  maxValueBytes := min (sanitizeCeiling options.maxValueBytes maxValueBytes) (sanitizeCeiling options.maxTotalBytes maxTotalBytes)
  value_le_total := min_le_right _ _

/-! ## Keys -/

def scopedKey (scope cacheKey : Text) : Text := scope ++ scopeSeparator :: cacheKey

/-- The text up to and with its `segments`-th colon, or all of it. -/
def colonSegments : Nat → Text → Text
  | 0, _ => []
  | _, [] => []
  | segments + 1, c :: rest => c :: (if c = colon then colonSegments segments rest else colonSegments (segments + 1) rest)

def bucketPrefixOf (cacheKey : Text) : Text := colonSegments immutableKeyPrefixSegments cacheKey

/-! ## The store -/

structure ImmutableFileCacheL1 where
  entries : OrdMap Text ImmutableL1Entry
  retainedBytes : Int
  storeKeysByCacheKey : OrdMap Text (List Text)
  storeKeysByBucket : OrdMap Text (List Text)
  keyGenerations : OrdMap Text Nat
  sweep : Nat

def createImmutableFileCacheL1 : ImmutableFileCacheL1 := ⟨.empty, 0, .empty, .empty, .empty, 0⟩

namespace ImmutableFileCacheL1

def generation (l1 : ImmutableFileCacheL1) (cacheKey : Text) : Nat := (l1.keyGenerations.get? cacheKey).getD 0

def removeEntry (l1 : ImmutableFileCacheL1) (storeKey : Text) : ImmutableFileCacheL1 :=
  match l1.entries.get? storeKey with
  | none => l1
  | some entry =>
    { l1 with
      retainedBytes := l1.retainedBytes - entry.valueBytes
      entries := l1.entries.erase storeKey
      storeKeysByCacheKey := SetIndex.remove l1.storeKeysByCacheKey entry.cacheKey storeKey
      storeKeysByBucket := SetIndex.remove l1.storeKeysByBucket entry.bucketPrefix storeKey }

def removeEntries (l1 : ImmutableFileCacheL1) (storeKeys : List Text) : ImmutableFileCacheL1 :=
  storeKeys.foldl removeEntry l1

def expiredKeys (l1 : ImmutableFileCacheL1) (now : ℚ) : List Text :=
  (l1.entries.entries.filter fun e => ¬ now < e.2.expiresAtElapsedMs).map Prod.fst

/-- The store without what has expired, and how much that was. -/
def sweepExpired (l1 : ImmutableFileCacheL1) (now : ℚ) : ImmutableFileCacheL1 × Nat :=
  (l1.removeEntries (l1.expiredKeys now), (l1.expiredKeys now).length)

def bumpKeyGeneration (ceilings : ImmutableL1Ceilings) (l1 : ImmutableFileCacheL1) (cacheKey : Text) :
    ImmutableFileCacheL1 :=
  let keyGenerations := l1.keyGenerations.set cacheKey (l1.generation cacheKey + 1)
  if keyGenerations.size ≤ ceilings.maxEntries then { l1 with keyGenerations }
  else { l1 with keyGenerations := .empty, sweep := l1.sweep + 1 }

def beginRead (l1 : ImmutableFileCacheL1) (cacheKey : Text) (elapsedNow wallClockNow : ℚ) : ImmutableL1ReadToken :=
  ⟨l1.generation cacheKey, l1.sweep, elapsedNow, wallClockNow⟩

def lookup (l1 : ImmutableFileCacheL1) (scope cacheKey : Text) (maxAgeMs : Option ℚ) (now : ℚ) :
    ImmutableFileCacheL1 × Option Text :=
  let storeKey := scopedKey scope cacheKey
  match l1.entries.get? storeKey with
  | none => (l1, none)
  | some entry =>
    if entry.expiresAtElapsedMs ≤ now then (l1.removeEntry storeKey, none)
    else if maxAgeMs.any fun maxAgeMs => maxAgeMs ≤ now - entry.readStartedAtElapsedMs then (l1, none)
    else ({ l1 with entries := (l1.entries.erase storeKey).set storeKey entry }, some entry.value)

def insertEntry (l1 : ImmutableFileCacheL1) (storeKey : Text) (entry : ImmutableL1Entry) : ImmutableFileCacheL1 :=
  { l1 with
    entries := l1.entries.set storeKey entry
    retainedBytes := l1.retainedBytes + entry.valueBytes
    storeKeysByCacheKey := SetIndex.add l1.storeKeysByCacheKey entry.cacheKey storeKey
    storeKeysByBucket := SetIndex.add l1.storeKeysByBucket entry.bucketPrefix storeKey }

def overCeiling (ceilings : ImmutableL1Ceilings) (l1 : ImmutableFileCacheL1) : Bool :=
  ceilings.maxEntries < l1.entries.size || ceilings.maxTotalBytes < l1.retainedBytes

/-- Removes the oldest entry while a ceiling is passed, `fuel` times at most. -/
def evictOldest (ceilings : ImmutableL1Ceilings) : Nat → ImmutableFileCacheL1 → ImmutableFileCacheL1
  | 0, l1 => l1
  | fuel + 1, l1 =>
    if l1.overCeiling ceilings then
      match l1.entries.keys.head? with
      | none => l1
      | some oldest => evictOldest ceilings fuel (l1.removeEntry oldest)
    else l1

def evictOverflow (ceilings : ImmutableL1Ceilings) (l1 : ImmutableFileCacheL1) : ImmutableFileCacheL1 :=
  evictOldest ceilings l1.entries.size l1

/-- The clock is read again, at `sweptAt`, for the entries that have expired. -/
def admitEntry (ceilings : ImmutableL1Ceilings) (l1 : ImmutableFileCacheL1) (scope cacheKey value : Text)
    (token : ImmutableL1ReadToken) (ttlMs : Option ℚ) (now sweptAt : ℚ) : ImmutableFileCacheL1 :=
  match ttlMs with
  | none => l1
  | some ttlMs =>
    let valueBytes := value.length * bytesPerValueChar
    let expiresAtElapsedMs := token.startedAtElapsedMs + ttlMs
    if ttlMs ≤ 0 then l1
    else if ceilings.maxEntries ≤ 0 ∨ ceilings.maxTotalBytes ≤ 0 then l1
    else if token.sweep ≠ l1.sweep then l1
    else if token.key ≠ l1.generation cacheKey then l1
    else if ceilings.maxValueBytes < valueBytes then l1
    else if expiresAtElapsedMs ≤ now then l1
    else
      let storeKey := scopedKey scope cacheKey
      (((l1.sweepExpired sweptAt).1.removeEntry storeKey).insertEntry storeKey
        { cacheKey
          bucketPrefix := bucketPrefixOf cacheKey
          value
          valueBytes
          readStartedAtElapsedMs := token.startedAtElapsedMs
          expiresAtElapsedMs }).evictOverflow ceilings

def dropKey (ceilings : ImmutableL1Ceilings) (l1 : ImmutableFileCacheL1) (cacheKey : Text) : ImmutableFileCacheL1 :=
  let l1 := l1.bumpKeyGeneration ceilings cacheKey
  l1.removeEntries (SetIndex.members l1.storeKeysByCacheKey cacheKey)

def doomed (l1 : ImmutableFileCacheL1) (dropped : Text) (bucket : Text × List Text) : List Text :=
  if dropped.isPrefixOf bucket.1 then bucket.2
  else if bucket.1.isPrefixOf dropped then
    bucket.2.filter fun storeKey => (l1.entries.get? storeKey).any fun entry => dropped.isPrefixOf entry.cacheKey
  else []

def dropPrefix (l1 : ImmutableFileCacheL1) (dropped : Text) : ImmutableFileCacheL1 :=
  let l1 := { l1 with sweep := l1.sweep + 1 }
  if l1.storeKeysByCacheKey.size = 0 then l1
  else l1.removeEntries (l1.storeKeysByBucket.entries.flatMap (l1.doomed dropped))

def clear (l1 : ImmutableFileCacheL1) : ImmutableFileCacheL1 := ⟨.empty, 0, .empty, .empty, .empty, l1.sweep + 1⟩

end ImmutableFileCacheL1

/-! ## Calls, one after the other -/

/-- A call with its clock readings. A token is handed back with the key its read was begun for; `read` says
which call began it. -/
inductive L1Call
  | beginRead (cacheKey : Text) (elapsedNow wallClockNow : ℚ)
  | admitEntry (scope cacheKey value : Text) (read : Nat) (ttlMs : Option ℚ) (now sweptAt : ℚ)
  | lookup (scope cacheKey : Text) (maxAgeMs : Option ℚ) (now : ℚ)
  | dropKey (cacheKey : Text)
  | dropPrefix (dropped : Text)
  | evictExpired (now : ℚ)
  | clear
deriving DecidableEq

inductive L1Reply
  | token (token : ImmutableL1ReadToken)
  | value (value : Option Text)
  | reclaimed (count : Nat)
  | void
deriving DecidableEq

structure L1Run where
  l1 : ImmutableFileCacheL1
  log : List (L1Call × L1Reply)

namespace L1Run

def initial : L1Run := ⟨createImmutableFileCacheL1, []⟩

def record (w : L1Run) (call : L1Call) (l1 : ImmutableFileCacheL1) (reply : L1Reply) : L1Run :=
  ⟨l1, w.log ++ [(call, reply)]⟩

def tokenOf (w : L1Run) (read : Nat) (cacheKey : Text) : Option ImmutableL1ReadToken :=
  match w.log[read]? with
  | some (.beginRead begun _ _, .token token) => if begun = cacheKey then some token else none
  | _ => none

def step (ceilings : ImmutableL1Ceilings) (w : L1Run) (call : L1Call) : Option L1Run :=
  match call with
  | .beginRead cacheKey elapsedNow wallClockNow =>
    some (w.record call w.l1 (.token (w.l1.beginRead cacheKey elapsedNow wallClockNow)))
  | .admitEntry scope cacheKey value read ttlMs now sweptAt =>
    (w.tokenOf read cacheKey).map fun token =>
      w.record call (w.l1.admitEntry ceilings scope cacheKey value token ttlMs now sweptAt) .void
  | .lookup scope cacheKey maxAgeMs now =>
    let (l1, value) := w.l1.lookup scope cacheKey maxAgeMs now
    some (w.record call l1 (.value value))
  | .dropKey cacheKey => some (w.record call (w.l1.dropKey ceilings cacheKey) .void)
  | .dropPrefix dropped => some (w.record call (w.l1.dropPrefix dropped) .void)
  | .evictExpired now =>
    let (l1, count) := w.l1.sweepExpired now
    some (w.record call l1 (.reclaimed count))
  | .clear => some (w.record call w.l1.clear .void)

end L1Run

end Veryfront.Cache
