import Mathlib.Data.Finset.Insert
import Veryfront.Cache.SegmentCodec
import Veryfront.Config.PreparedContext
import Veryfront.Lib.Decimal
import Veryfront.Lib.Purse

/-!
# Snapshots of a configuration

Plain data is copied within fixed limits, and the keys of every record come into one order. The walk counts values and
properties, and estimates the bytes of the JSON text from above.
-/

namespace Veryfront.Config.Snapshots

open Lib

/-! ## Numbers -/

/-- A finite number other than zero, as the fewest digits that are read as it: `0.d₁d₂…` times ten to the exponent. -/
structure Decimal where
  negative : Bool
  digits : List Nat
  exponent : Int
  nonempty : digits ≠ []
  length_le : digits.length ≤ 17
  digit_le : ∀ d ∈ digits, d ≤ 9
  first_ne : digits.head? ≠ some 0
  last_ne : digits.getLast? ≠ some 0
  exponent_ge : -323 ≤ exponent
  exponent_le : exponent ≤ 309

inductive Number
  | notANumber
  | infinite (negative : Bool)
  | zero (negative : Bool)
  | finite (decimal : Decimal)

def Number.isFinite : Number → Bool
  | .zero _ | .finite _ => true
  | _ => false

def sign (negative : Bool) : Text := if negative then [45] else []

/-- The point among the digits, or an exponent behind them. -/
def magnitude (digits : Text) (n : Int) : Text :=
  if digits.length ≤ n ∧ n ≤ 21 then digits ++ List.replicate (n - digits.length).toNat 48
  else if 0 < n ∧ n ≤ 21 then digits.take n.toNat ++ 46 :: digits.drop n.toNat
  else if -6 < n ∧ n ≤ 0 then [48, 46] ++ List.replicate (-n).toNat 48 ++ digits
  else
    let mantissa := if digits.length = 1 then digits else digits.take 1 ++ 46 :: digits.drop 1
    mantissa ++ [101, if n - 1 < 0 then 45 else 43] ++ decimal (n - 1).natAbs

/-- `Number::toString` -/
def Number.text : Number → Text
  | .notANumber => .of "NaN"
  | .infinite negative => sign negative ++ .of "Infinity"
  | .zero _ => [48]
  | .finite d => sign d.negative ++ magnitude (d.digits.map (48 + ·)) d.exponent

/-! ## Values -/

/-- Plain data. An array or a record is an object with an identity, and has its keys in the order of their creation. -/
inductive Value (ρ : Type)
  | null
  | boolean (value : Bool)
  | number (value : Number)
  | string (value : JsString)
  | array (ref : ρ) (length : Nat) (items : Fin length → Value ρ)
  | record (ref : ρ) (keys : List JsString) (distinct : keys.Nodup) (values : Fin keys.length → Value ρ)

/-- A value whose objects are nowhere else. -/
abbrev ConfigSnapshotValue := Value Unit

def units (value : JsString) : Text := value.map Fin.val

def toArrayIndex (key : JsString) : Option Nat :=
  let value := digitsValue (units key)
  if key ≠ [] ∧ value ≤ 4294967294 ∧ decimal value = units key then some value else none

/-- Own keys: the indices in numeric order, and then the others as they were created. -/
def ownKeys (keys : List JsString) : List JsString :=
  let indices := keys.filter fun key => (toArrayIndex key).isSome
  indices.mergeSort (fun left right => decide ((toArrayIndex left).getD 0 ≤ (toArrayIndex right).getD 0)) ++
    keys.filter fun key => (toArrayIndex key).isNone

def valueOf {α : Type} (keys : List JsString) (values : Fin keys.length → α) (key : JsString) (h : key ∈ keys) : α :=
  values ⟨keys.idxOf key, List.idxOf_lt_length_iff.mpr h⟩

/-! ## Limits -/

def maxDepth : Nat := 32

def maxTotalNodes : Nat := 12288

def maxTotalProperties : Nat := 16384

def maxArrayLength : Nat := 2048

def maxObjectKeys : Nat := 1024

def maxKeyLength : Nat := 1024

def maxStringLength : Nat := 65536

def maxEstimatedBytes : Nat := 1048576

def ARRAY_OR_OBJECT_BYTES : Nat := 2

def ARRAY_ITEM_SEPARATOR_BYTES : Nat := 1

def JSON_NUMBER_MAX_BYTES : Nat := 24

def JSON_STRING_DELIMITER_BYTES : Nat := 2

def JSON_STRING_MAX_BYTES_PER_CODE_UNIT : Nat := 6

def OBJECT_PROPERTY_SEPARATOR_BYTES : Nat := 2

inductive ConfigSnapshotErrorCode
  | dangerousKey
  | duplicateReference
  | maxArrayLengthExceeded
  | maxDepthExceeded
  | maxEstimatedBytesExceeded
  | maxKeyLengthExceeded
  | maxNodesExceeded
  | maxObjectKeysExceeded
  | maxPropertiesExceeded
  | maxStringLengthExceeded
  | nonFiniteNumber
deriving DecidableEq

structure ConfigSnapshotError where
  code : ConfigSnapshotErrorCode
  path : Text
  reason : Text
deriving DecidableEq

variable {ρ : Type} [DecidableEq ρ]

/-- What has been counted so far, within the limits. -/
@[ext]
structure SnapshotState (ρ : Type) where
  seen : Finset ρ := ∅
  nodeCount : Nat := 0
  propertyCount : Nat := 0
  estimatedBytes : Nat := 0
  nodes_le : nodeCount ≤ maxTotalNodes := by exact Nat.zero_le _
  properties_le : propertyCount ≤ maxTotalProperties := by exact Nat.zero_le _
  bytes_le : estimatedBytes ≤ maxEstimatedBytes := by exact Nat.zero_le _

abbrev SnapshotM (ρ : Type) := StateT (SnapshotState ρ) (Except ConfigSnapshotError)

def reject {α : Type} (code : ConfigSnapshotErrorCode) (path reason : Text) : SnapshotM ρ α := throw ⟨code, path, reason⟩

def advance (next : SnapshotState ρ → Option (SnapshotState ρ)) (code : ConfigSnapshotErrorCode) (path reason : Text) :
    SnapshotM ρ Unit := do
  match next (← get) with
  | some state => set state
  | none => reject code path reason

def addNode (path : Text) : SnapshotM ρ Unit :=
  advance (fun state => if h : state.nodeCount + 1 ≤ maxTotalNodes then
    some { state with nodeCount := state.nodeCount + 1, nodes_le := h } else none)
    .maxNodesExceeded path (.of s!"value count exceeds {maxTotalNodes}")

def addProperties (count : Nat) (path : Text) : SnapshotM ρ Unit :=
  advance (fun state => if h : count > maxTotalProperties - state.propertyCount then none else
    some { state with
      propertyCount := state.propertyCount + count
      properties_le := Nat.add_le_of_le_sub' state.properties_le (Nat.not_lt.mp h) })
    .maxPropertiesExceeded path (.of s!"property count exceeds {maxTotalProperties}")

def addEstimatedBytes (count : Nat) (path : Text) : SnapshotM ρ Unit :=
  advance (fun state => if h : count > maxEstimatedBytes - state.estimatedBytes then none else
    some { state with
      estimatedBytes := state.estimatedBytes + count
      bytes_le := Nat.add_le_of_le_sub' state.bytes_le (Nat.not_lt.mp h) })
    .maxEstimatedBytesExceeded path (.of s!"estimated serialized size exceeds {maxEstimatedBytes} bytes")

def markSeen (ref : ρ) (path : Text) : SnapshotM ρ Unit :=
  advance (fun state => if h : ref ∈ state.seen then none else
    some { state with seen := state.seen.cons ref h })
    .duplicateReference path (.of "cycles and shared object references are not allowed")

def estimateJsonStringBytes (length : Nat) : Nat :=
  JSON_STRING_DELIMITER_BYTES + length * JSON_STRING_MAX_BYTES_PER_CODE_UNIT

def childPath (path : Text) (key : JsString) : Text := path ++ 91 :: Cache.jsonQuote (units key) ++ [93]

def arrayChildPath (path : Text) (index : Nat) : Text := path ++ 91 :: decimal index ++ [93]

/-! ## Canonical order -/

def compareCanonicalKeys (left right : JsString) : Int :=
  match toArrayIndex left, toArrayIndex right with
  | some leftIndex, some rightIndex => leftIndex - rightIndex
  | some _, none => -1
  | none, some _ => 1
  | none, none => if left < right then -1 else if right < left then 1 else 0

def sortKeys (keys : List JsString) : List JsString := keys.mergeSort fun left right => compareCanonicalKeys left right ≤ 0

def dangerousKeys : List JsString := ["__proto__", "constructor", "prototype"].map fun key => asciiString (key.toList.map Char.toNat)

def isDangerousKey (key : JsString) : Bool := key ∈ dangerousKeys

/-! ## The walk -/

def canonicalizeArray (canonicalizeChild : Value ρ → Text → SnapshotM ρ ConfigSnapshotValue) (path : Text) (length : Nat)
    (items : Fin length → Value ρ) : SnapshotM ρ ConfigSnapshotValue := do
  if length > maxArrayLength then reject .maxArrayLengthExceeded path (.of s!"array length exceeds {maxArrayLength}")
  addProperties length path
  addEstimatedBytes (ARRAY_OR_OBJECT_BYTES + (length - 1) * ARRAY_ITEM_SEPARATOR_BYTES) path
  let output ← forFamily length fun index => canonicalizeChild (items index) (arrayChildPath path index)
  return .array () length output

def checkKey (path : Text) (key : JsString) : SnapshotM ρ Unit := do
  if key.length > maxKeyLength then reject .maxKeyLengthExceeded path (.of s!"object key length exceeds {maxKeyLength}")
  if isDangerousKey key then
    reject .dangerousKey (childPath path key) (.of "property name " ++ Cache.jsonQuote (units key) ++ .of " is not allowed")
  addEstimatedBytes (estimateJsonStringBytes key.length + OBJECT_PROPERTY_SEPARATOR_BYTES) path

theorem ownKeys_perm (keys : List JsString) : (ownKeys keys).Perm keys := by
  have hsplit := List.filter_append_perm (fun key => (toArrayIndex key).isSome) keys
  have hnot : (fun key => !(toArrayIndex key).isSome) = fun key => (toArrayIndex key).isNone := by
    funext key
    cases toArrayIndex key <;> rfl
  rw [hnot] at hsplit
  exact ((List.mergeSort_perm _ _).append_right _).trans hsplit

theorem sortKeys_perm (keys : List JsString) : (sortKeys (ownKeys keys)).Perm keys :=
  (List.mergeSort_perm _ _).trans (ownKeys_perm keys)

theorem sortKeys_nodup {keys : List JsString} (distinct : keys.Nodup) : (sortKeys (ownKeys keys)).Nodup :=
  (sortKeys_perm keys).nodup_iff.mpr distinct

def canonicalizeRecord (canonicalizeChild : Value ρ → Text → SnapshotM ρ ConfigSnapshotValue) (path : Text)
    (createdKeys : List JsString) (distinct : createdKeys.Nodup) (values : Fin createdKeys.length → Value ρ) :
    SnapshotM ρ ConfigSnapshotValue := do
  let keys := ownKeys createdKeys
  if keys.length > maxObjectKeys then reject .maxObjectKeysExceeded path (.of s!"object key count exceeds {maxObjectKeys}")
  addProperties keys.length path
  addEstimatedBytes (ARRAY_OR_OBJECT_BYTES + (keys.length - 1) * OBJECT_PROPERTY_SEPARATOR_BYTES) path
  keys.forM (checkKey path)
  let output ← forFamily (sortKeys keys).length fun index =>
    let key := (sortKeys keys)[index]
    canonicalizeChild (valueOf createdKeys values key ((sortKeys_perm createdKeys).mem_iff.mp (List.getElem_mem index.isLt)))
      (childPath path key)
  return .record () (sortKeys keys) (sortKeys_nodup distinct) output

/-- So many levels more are allowed. -/
def canonicalizeValue : (remaining : Nat) → Value ρ → (path : Text) → SnapshotM ρ ConfigSnapshotValue
  | 0, _, path => reject .maxDepthExceeded path (.of s!"nesting depth exceeds {maxDepth}")
  | remaining + 1, value, path => do
    addNode path
    match value with
    | .null => do
      addEstimatedBytes 4 path
      return .null
    | .boolean b => do
      addEstimatedBytes 5 path
      return .boolean b
    | .number n => do
      if !n.isFinite then reject .nonFiniteNumber path (.of "numbers must be finite")
      addEstimatedBytes JSON_NUMBER_MAX_BYTES path
      return .number n
    | .string s => do
      if s.length > maxStringLength then reject .maxStringLengthExceeded path (.of s!"string length exceeds {maxStringLength}")
      addEstimatedBytes (estimateJsonStringBytes s.length) path
      return .string s
    | .array ref length items => do
      markSeen ref path
      canonicalizeArray (canonicalizeValue remaining) path length items
    | .record ref keys distinct values => do
      markSeen ref path
      canonicalizeRecord (canonicalizeValue remaining) path keys distinct values

/-- `none` for a value that is rejected. -/
def canonicalizeConfigSnapshot (value : Value ρ) : Except ConfigSnapshotError ConfigSnapshotValue :=
  (canonicalizeValue (maxDepth + 1) value [36]).run' {}

/-! ## JSON text -/

def comma : Nat := 44

/-- `JSON.stringify` -/
def stringify {ρ : Type} : Value ρ → Text
  | .null => .of "null"
  | .boolean b => if b then .of "true" else .of "false"
  | .number n => if n.isFinite then n.text else .of "null"
  | .string s => Cache.jsonQuote (units s)
  | .array _ length items => 91 :: [comma].intercalate (List.ofFn fun i : Fin length => stringify (items i)) ++ [93]
  | .record _ keys _ values =>
    let texts := fun i => stringify (values i)
    123 :: [comma].intercalate ((ownKeys keys).attach.map fun key =>
      Cache.jsonQuote (units key.1) ++ 58 :: valueOf keys texts key.1 ((ownKeys_perm keys).mem_iff.mp key.2)) ++ [125]

end Veryfront.Config.Snapshots
