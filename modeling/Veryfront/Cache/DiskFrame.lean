import Veryfront.Cache.SegmentCodec
import Veryfront.Lib.BigEndian

/-!
# Frames of the disk cache

A file holds a header of forty bytes, the key and the value, both as code units, so that every string survives. The
header says how long they are, how long the value is in UTF-8, and when the entry expires.
-/

namespace Veryfront.Cache.Disk

open Lib

def maxCacheKeyCodeUnits : Nat := 64 * 1024

def maxConfiguredValueBytes : Nat := 512 * 1024 * 1024

def frameHeaderBytes : Nat := 40

def frameMagic : List Nat := [0x56, 0x46, 0x43, 0x41, 0x43, 0x48, 0x45, 0x34]

def maxSafeInteger : Nat := 2 ^ 53 - 1

/-! ## Numbers -/

/-- A number by the 64 bits of its floating-point form. -/
structure Double where
  bits : Nat
  lt : bits < 2 ^ 64
deriving DecidableEq

namespace Double

def ofBits (n : Nat) : Double := ⟨n % 2 ^ 64, Nat.mod_lt _ (by decide)⟩

def zero : Double := ofBits 0

/-- Of either sign. -/
def isZero (d : Double) : Bool := d.bits % 2 ^ 63 = 0

def isFinite (d : Double) : Bool := d.bits / 2 ^ 52 % 2 ^ 11 ≠ 2 ^ 11 - 1

/-- Below zero, for a finite number. -/
def isNegative (d : Double) : Bool := 2 ^ 63 ≤ d.bits && !d.isZero

structure PositiveFinite (d : Double) : Prop where
  finite : d.isFinite
  nonzero : ¬ d.isZero
  nonnegative : ¬ d.isNegative

end Double

def setSafeUint64 (value : Nat) : Option (List Nat) :=
  if value ≤ maxSafeInteger then some (BigEndian.write 8 value) else none

def getSafeUint64 (bytes : List Nat) : Option Nat :=
  if BigEndian.read bytes ≤ maxSafeInteger then some (BigEndian.read bytes) else none

def framedFileBytes (keyCodeUnits valueCodeUnits : Nat) : Option Nat :=
  let byteLength := frameHeaderBytes + keyCodeUnits * 2 + valueCodeUnits * 2
  if byteLength ≤ maxSafeInteger then some byteLength else none

/-! ## Code units -/

def writeUtf16CodeUnits (value : Text) : List Nat := value.flatMap fun codeUnit => [codeUnit / 256, codeUnit % 256]

/-- The chunks of the decoder put together. -/
def decodeUtf16CodeUnits : List Nat → Text
  | high :: low :: rest => (256 * high + low) :: decodeUtf16CodeUnits rest
  | _ => []

/-- The octets for what starts with this unit, and whether the next unit is part of it. -/
def utf8Width (codeUnit : Nat) (next : Option Nat) : Nat × Bool :=
  if codeUnit ≤ 0x7f then (1, false)
  else if codeUnit ≤ 0x7ff then (2, false)
  else if isHighSurrogate codeUnit && next.any isLowSurrogate then (4, true)
  else (3, false)

/-- `none` once the length passes the limit. `skip` stands at the second half of a pair. -/
def utf8LengthWithin (limit : Nat) : (skip : Bool) → (bytes : Nat) → Text → Option Nat
  | _, bytes, [] => some bytes
  | true, bytes, _ :: rest => utf8LengthWithin limit false bytes rest
  | false, bytes, codeUnit :: rest =>
    let (width, pair) := utf8Width codeUnit rest.head?
    if bytes + width ≤ limit then utf8LengthWithin limit pair (bytes + width) rest else none

def utf8ByteLength (value : Text) (stopAfter : Nat) : Nat := (utf8LengthWithin stopAfter false 0 value).getD (stopAfter + 1)

def measureUtf8FromUtf16CodeUnits (source : List Nat) : Option Nat :=
  utf8LengthWithin maxSafeInteger false 0 (decodeUtf16CodeUnits source)

/-! ## Frames -/

/-- `none` for a length that is no safe integer. -/
def encodeEnvelope (key value : Text) (valueUtf8Bytes : Nat) (expiresAt : Option Double) : Option (List Nat) := do
  let _ ← framedFileBytes key.length value.length
  let keyCodeUnits ← setSafeUint64 key.length
  let valueCodeUnits ← setSafeUint64 value.length
  let utf8Bytes ← setSafeUint64 valueUtf8Bytes
  return frameMagic ++ keyCodeUnits ++ valueCodeUnits ++ utf8Bytes ++ BigEndian.write 8 (expiresAt.getD .zero).bits ++
    writeUtf16CodeUnits key ++ writeUtf16CodeUnits value

structure FramedHeader where
  keyCodeUnits : Nat
  valueCodeUnits : Nat
  valueUtf8Bytes : Nat
  expiresAt : Option Double
  fileBytes : Nat
deriving DecidableEq

/-- `none` for an invalid file. -/
def parseHeader (bytes : List Nat) (configuredMaximumBytes : Nat) : Option FramedHeader :=
  if bytes.length ≠ frameHeaderBytes ∨ bytes.take 8 ≠ frameMagic then none
  else do
    let keyCodeUnits ← getSafeUint64 ((bytes.drop 8).take 8)
    let valueCodeUnits ← getSafeUint64 ((bytes.drop 16).take 8)
    let valueUtf8Bytes ← getSafeUint64 ((bytes.drop 24).take 8)
    let rawExpiresAt := Double.ofBits (BigEndian.read ((bytes.drop 32).take 8))
    if maxCacheKeyCodeUnits < keyCodeUnits ∨ configuredMaximumBytes < valueUtf8Bytes ∨ valueUtf8Bytes < valueCodeUnits ∨
        valueCodeUnits * 3 < valueUtf8Bytes ∨ ¬ rawExpiresAt.isFinite ∨ rawExpiresAt.isNegative then none
    else do
      let fileBytes ← framedFileBytes keyCodeUnits valueCodeUnits
      return { keyCodeUnits, valueCodeUnits, valueUtf8Bytes
               expiresAt := if rawExpiresAt.isZero then none else some rawExpiresAt
               fileBytes }

structure DiskCacheEnvelope where
  key : Text
  value : Option Text
  expiresAt : Option Double
deriving DecidableEq

inductive ReadError
  | invalidFile
  | valueTooLarge (maximumBytes : Nat)
deriving DecidableEq

def orInvalid {α : Type} : Option α → Except ReadError α
  | some a => .ok a
  | none => .error .invalidFile

def readExactly (file : List Nat) (length offset : Nat) : Except ReadError (List Nat) :=
  let bytes := (file.drop offset).take length
  if bytes.length = length then .ok bytes else .error .invalidFile

/-- The values that the constructor lets through. -/
structure DiskLimits where
  maxValueBytes : Nat
  positive : 0 < maxValueBytes
  le : maxValueBytes ≤ maxConfiguredValueBytes

/-- Reads a file that stays as it is. `reached` says whether the clock has come to an expiry. -/
def readFramedFile (limits : DiskLimits) (reached : Double → Bool) (file : List Nat) (expectedKey : Option Text)
    (maximumValueBytes : Option Nat) (includeValue : Bool) : Except ReadError DiskCacheEnvelope := do
  let maxFileBytes ← orInvalid (framedFileBytes maxCacheKeyCodeUnits limits.maxValueBytes)
  if maxFileBytes < file.length then .error .invalidFile
  else
    let headerBytes ← readExactly file frameHeaderBytes 0
    let header ← orInvalid (parseHeader headerBytes limits.maxValueBytes)
    if header.fileBytes ≠ file.length then .error .invalidFile
    else
      let keyBytes ← readExactly file (header.keyCodeUnits * 2) frameHeaderBytes
      let key := decodeUtf16CodeUnits keyBytes
      if expectedKey.any (· ≠ key) || header.expiresAt.any reached || !includeValue then
        .ok { key, value := none, expiresAt := header.expiresAt }
      else if maximumValueBytes.any (· < header.valueUtf8Bytes) then
        .error (.valueTooLarge (maximumValueBytes.getD 0))
      else
        let valueBytes ← readExactly file (header.valueCodeUnits * 2) (frameHeaderBytes + header.keyCodeUnits * 2)
        if measureUtf8FromUtf16CodeUnits valueBytes ≠ some header.valueUtf8Bytes then .error .invalidFile
        else .ok { key, value := some (decodeUtf16CodeUnits valueBytes), expiresAt := header.expiresAt }

/-! ## Namespaces -/

def maxCacheNamespaceBytes : Nat := 240

/-- Small letters, digits, the underscore and the hyphen. -/
def isPortableNamespaceChar (c : Nat) : Bool := (97 ≤ c && c ≤ 122) || (48 ≤ c && c ≤ 57) || c = 95 || c = 45

/-- In any case. -/
def isWindowsReservedName (name : Text) : Bool :=
  let upper : Text := name.map upperCase
  upper ∈ [Text.of "CON", .of "PRN", .of "AUX", .of "NUL"] ||
    (upper.length = 4 && (upper.startsWith "COM" || upper.startsWith "LPT") &&
      upper.getLast?.any fun digit => 49 ≤ digit && digit ≤ 57)

def tilde : Nat := 126

def escapeNamespaceChar (c : Nat) : Text := if isPortableNamespaceChar c then [c] else tilde :: padStart (toHex c) 4 48

/-- `none` for the error of a prefix that is too long. -/
def encodeCacheNamespace (keyPrefix : Text) : Option Text :=
  if keyPrefix.length ≤ maxCacheNamespaceBytes ∧ ¬ isWindowsReservedName keyPrefix ∧ keyPrefix.all isPortableNamespaceChar then
    some keyPrefix
  else
    let encoded := tilde :: keyPrefix.flatMap escapeNamespaceChar
    if maxCacheNamespaceBytes < encoded.length then none else some encoded

end Veryfront.Cache.Disk
