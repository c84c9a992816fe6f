import Mathlib.Data.List.Lex
import Mathlib.Data.List.Sort
import Veryfront.Lib.BigEndian
import Veryfront.Lib.Framing
import Veryfront.Lib.OrdMap
import Veryfront.Lib.Unicode

/-!
# Prepared contexts

An environment is taken over key by key within the limits, and a prepared context is the name of an environment together
with such a snapshot. Its fingerprint is made of bytes in which every string stands with its length in front.
-/

namespace Veryfront.Config

open Lib

/-! ## Strings -/

abbrev CodeUnit := Fin 0x10000

abbrev JsString := List CodeUnit

def asciiString (text : List Nat) : JsString := text.map (Fin.ofNat 0x10000)

/-- The least upper bound plus one where it is passed; a surrogate without its partner takes three bytes. -/
def countUtf8Bytes (maximum : Nat) : (points : List Nat) → (bytes : Nat) → Nat
  | [], bytes => bytes
  | point :: points, bytes =>
    if maximum - bytes < (Utf8.encode point).length then maximum + 1
    else countUtf8Bytes maximum points (bytes + (Utf8.encode point).length)

def countUtf8BytesUpTo (value : JsString) (maximum : Nat) : Nat :=
  if maximum < value.length then maximum + 1 else countUtf8Bytes maximum (codePoints (value.map Fin.val)) 0

/-! ## Snapshots -/

def maxEnvironmentNameLength : Nat := 255

def maxEnvironmentEntries : Nat := 128

def maxEnvironmentKeyLength : Nat := 1024

def maxEnvironmentValueLength : Nat := 1048576

def maxEnvironmentBytes : Nat := 1048576

inductive ErrorCode
  | inputInvalid
  | resourceLimitExceeded
deriving DecidableEq

inductive ErrorReason
  | environmentName
  | environmentEntries
  | environmentKey
  | environmentValue
  | environmentBytes
deriving DecidableEq

/-- All of them are of the phase `input`. -/
structure EvaluationError where
  code : ErrorCode
  reason : ErrorReason
deriving DecidableEq

def isEnvironmentKey (key : JsString) : Bool := key ≠ [] && key.all fun code => code ≠ 0 && code ≠ 61

def isEnvironmentValue (value : JsString) : Bool := value.all (· ≠ 0)

def validateEnvironmentName (name : JsString) : Except EvaluationError JsString :=
  if name = [] ∨ maxEnvironmentNameLength < name.length ∨ name.any (fun code => code < 32 || code = 127) then
    .error ⟨.inputInvalid, .environmentName⟩
  else .ok name

abbrev Environment := OrdMap JsString JsString

/-- The order of code units. -/
def sortKeys (keys : List JsString) : List JsString := keys.insertionSort (· ≤ ·)

def snapshotKey (input : Environment) (taken : Environment × Nat) (key : JsString) :
    Except EvaluationError (Environment × Nat) := do
  let (output, totalBytes) := taken
  if maxEnvironmentKeyLength < key.length ∨ isEnvironmentKey key = false then throw ⟨.inputInvalid, .environmentKey⟩
  let value := (input.get? key).getD []
  if maxEnvironmentValueLength < value.length ∨ isEnvironmentValue value = false then
    throw ⟨.inputInvalid, .environmentValue⟩
  let keyBytes := countUtf8BytesUpTo key (maxEnvironmentBytes - totalBytes)
  if maxEnvironmentBytes - totalBytes < keyBytes then throw ⟨.resourceLimitExceeded, .environmentBytes⟩
  let valueBytes := countUtf8BytesUpTo value (maxEnvironmentBytes - (totalBytes + keyBytes))
  if maxEnvironmentBytes - (totalBytes + keyBytes) < valueBytes then throw ⟨.resourceLimitExceeded, .environmentBytes⟩
  return (output.set key value, totalBytes + keyBytes + valueBytes)

def snapshotTenantEnvironment (input : Environment) : Except EvaluationError Environment :=
  if maxEnvironmentEntries < input.keys.length then .error ⟨.resourceLimitExceeded, .environmentEntries⟩
  else ((sortKeys input.keys).foldlM (snapshotKey input) (.empty, 0)).map Prod.fst

/-- What is within the limits, so that every length fits into four bytes. -/
structure Environment.Within (environment : Environment) : Prop where
  entries : environment.keys.length ≤ maxEnvironmentEntries
  keys : ∀ entry ∈ environment.entries, entry.1.length ≤ maxEnvironmentKeyLength
  values : ∀ entry ∈ environment.entries, entry.2.length ≤ maxEnvironmentValueLength

structure PreparedContextState where
  tenantEnvironment : Environment
  environmentName : JsString
  within : tenantEnvironment.Within
  name_within : environmentName.length ≤ maxEnvironmentNameLength

/-! ## Fingerprint input -/

def fingerprintNamespace : JsString := asciiString ("veryfront-declarative-context-v1".toList.map Char.toNat)

def policyVersion : JsString := asciiString ("hosted-declarative-config-v3".toList.map Char.toNat)

def maxSafeInteger : Nat := 9007199254740991

def sortedEnvironmentKeys (environment : Environment) : List JsString := sortKeys environment.keys

/-- `none` for the error that the input is too large. -/
def addFingerprintFrameLength (total : Nat) (value : JsString) : Option Nat :=
  let frameBytes := 4 + value.length * 2
  if maxSafeInteger < frameBytes + total then none else some (total + frameBytes)

/-- A cell keeps the lowest eight bits of what is written to it. -/
def putByte (bytes : Buffer Nat) (value : Nat) : Buffer Nat := bytes.put (value % 256)

def writeUint32 (bytes : Buffer Nat) (value : Nat) : Buffer Nat :=
  putByte (putByte (putByte (putByte bytes (value / 2 ^ 24)) (value / 2 ^ 16)) (value / 2 ^ 8)) value

def writeUint16 (bytes : Buffer Nat) (code : CodeUnit) : Buffer Nat := putByte (putByte bytes (code.val / 2 ^ 8)) code.val

def writeFingerprintFrame (bytes : Buffer Nat) (value : JsString) : Buffer Nat :=
  value.foldl writeUint16 (writeUint32 bytes value.length)

def addEntryLength (total : Nat) (entry : JsString × JsString) : Option Nat :=
  (addFingerprintFrameLength total entry.1).bind (addFingerprintFrameLength · entry.2)

def writeEntry (bytes : Buffer Nat) (entry : JsString × JsString) : Buffer Nat :=
  writeFingerprintFrame (writeFingerprintFrame bytes entry.1) entry.2

/-- The bytes, and where the writing has ended; `none` for a type error. -/
def canonicalPreparedContextBytes (state : PreparedContextState) : Option (Buffer Nat) := do
  let keys := sortedEnvironmentKeys state.tenantEnvironment
  let entries ← keys.mapM fun key => (state.tenantEnvironment.get? key).map (key, ·)
  let byteLength ← addFingerprintFrameLength 4 fingerprintNamespace
  let byteLength ← addFingerprintFrameLength byteLength policyVersion
  let byteLength ← addFingerprintFrameLength byteLength state.environmentName
  let byteLength ← entries.foldlM addEntryLength byteLength
  let bytes : Buffer Nat := ⟨List.replicate byteLength 0, 0⟩
  let bytes := writeFingerprintFrame bytes fingerprintNamespace
  let bytes := writeFingerprintFrame bytes policyVersion
  let bytes := writeFingerprintFrame bytes state.environmentName
  let bytes := writeUint32 bytes keys.length
  let bytes := entries.foldl writeEntry bytes
  if bytes.offset ≠ byteLength then none else some bytes

end Veryfront.Config
