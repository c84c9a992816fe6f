import Veryfront.Utils.UriComponent

/-!
# Segments of a cache key

Three codecs that spell any string, lone surrogates included, without the colon that separates the segments of a key:
one with an escape for each unusual code unit, one with the escapes of a URI component, and one in base 64.
-/

namespace Veryfront.Cache

open Lib

def underscore : Nat := 95

/-! ## Literal segments -/

/-- Letters, digits and the marks `-./`. -/
def isCacheLiteralCodeUnit (codeUnit : Nat) : Bool :=
  (48 ≤ codeUnit && codeUnit ≤ 57) || (65 ≤ codeUnit && codeUnit ≤ 90) || (97 ≤ codeUnit && codeUnit ≤ 122) ||
    codeUnit ∈ [45, 46, 47]

def isLowercaseHexCodeUnit (value : Text) : Bool :=
  value.length = 4 && value.all fun c => (48 ≤ c && c ≤ 57) || (97 ≤ c && c ≤ 102)

def escapeCodeUnit (codeUnit : Nat) : Text :=
  if isCacheLiteralCodeUnit codeUnit then [codeUnit] else underscore :: padStart (toHex codeUnit) 4 48

/-- The mark in front makes the empty string a segment, the one behind keeps the text off the next colon. -/
def encodeCacheKeyLiteralSegment (value : Text) : Text := .of "s" ++ value.flatMap escapeCodeUnit ++ [underscore]

/-- What is between the marks. `skip` is what remains of an escape. -/
def decodeLiteralFrom : (skip : Nat) → Text → Option Text
  | _, [] => some []
  | skip + 1, _ :: rest => decodeLiteralFrom skip rest
  | 0, codeUnit :: rest =>
    if isCacheLiteralCodeUnit codeUnit then do return codeUnit :: (← decodeLiteralFrom 0 rest)
    else if codeUnit ≠ underscore ∨ rest.length < 4 then none
    else
      let escaped := rest.take 4
      if ¬ isLowercaseHexCodeUnit escaped ∨ isCacheLiteralCodeUnit (parseHex escaped) then none
      else do return parseHex escaped :: (← decodeLiteralFrom 4 rest)

def decodeCacheKeyLiteralSegment (encoded : Text) : Option Text :=
  if encoded.length < 2 ∨ encoded.head? ≠ some 115 ∨ encoded.getLast? ≠ some underscore then none
  else do
    let decoded ← decodeLiteralFrom 0 encoded.tail.dropLast
    if encodeCacheKeyLiteralSegment decoded = encoded then some decoded else none

/-! ## Percent segments -/

def upperCase (c : Nat) : Nat := if 97 ≤ c ∧ c ≤ 122 then c - 32 else c

def formatEscapedSurrogate (codeUnit : Nat) : Text := .of "%u" ++ padStart ((toHex codeUnit).map upperCase) 4 48

def isCanonicalEscapedCodeUnit (value : Text) : Bool :=
  value.length = 4 && value.all fun c => (48 ≤ c && c ≤ 57) || (65 ≤ c && c ≤ 70)

/-- `chunk` is the text since the last surrogate that stands alone, last unit first. `skip` stands at the second half
of a pair. -/
def encodeChunks : (skip : Bool) → (chunk : Text) → Text → Option Text
  | _, chunk, [] => encodeURIComponent chunk.reverse
  | true, chunk, codeUnit :: rest => encodeChunks false (codeUnit :: chunk) rest
  | false, chunk, codeUnit :: rest =>
    if isHighSurrogate codeUnit && rest.head?.any isLowSurrogate then encodeChunks true (codeUnit :: chunk) rest
    else if !isHighSurrogate codeUnit && !isLowSurrogate codeUnit then encodeChunks false (codeUnit :: chunk) rest
    else do
      let encoded ← encodeURIComponent chunk.reverse
      return encoded ++ formatEscapedSurrogate codeUnit ++ (← encodeChunks false [] rest)

/-- `none` if the encoding of a chunk throws. -/
def encodeCacheKeyPercentSegment (value : Text) : Option Text :=
  match encodeURIComponent value with
  | some encoded => some encoded
  | none => encodeChunks false [] value

def escapedSurrogateAt (t : Text) : Option Nat :=
  let escaped := (t.drop 2).take 4
  if t.startsWith "%u" ∧ isCanonicalEscapedCodeUnit escaped ∧ isSurrogate (parseHex escaped) then some (parseHex escaped)
  else none

/-- `chunk` is the text since the last escape of a surrogate, last unit first. -/
def decodeChunks : (skip : Nat) → (chunk : Text) → Text → Option Text
  | _, chunk, [] => decodeURIComponent chunk.reverse
  | skip + 1, chunk, _ :: rest => decodeChunks skip chunk rest
  | 0, chunk, c :: rest =>
    match escapedSurrogateAt (c :: rest) with
    | some codeUnit => do
      let decoded ← decodeURIComponent chunk.reverse
      return decoded ++ codeUnit :: (← decodeChunks 5 [] rest)
    | none => decodeChunks 0 (c :: chunk) rest

def decodeCacheKeyPercentSegment (encoded : Text) : Option Text := do
  let value ← decodeChunks 0 [] encoded
  if encodeCacheKeyPercentSegment value = some encoded then some value else none

/-! ## Text and bytes -/

/-- A surrogate that stands alone becomes the replacement character. -/
def textEncode (t : Text) : List Nat := (codePoints t).flatMap fun p => Utf8.encode (if isSurrogate p then 0xFFFD else p)

def decodePoints : (skip : Nat) → List Nat → Option (List Nat)
  | _, [] => some []
  | skip + 1, _ :: rest => decodePoints skip rest
  | 0, byte :: rest => do
    let (point, octets) ← Utf8.pointAt List.head? 1 (byte :: rest)
    return point :: (← decodePoints (octets - 1) rest)

/-- `none` for the error on a byte sequence that is no UTF-8. A byte order mark in front is left out. -/
def textDecode (bytes : List Nat) : Option Text :=
  (decodePoints 0 (if [0xEF, 0xBB, 0xBF].isPrefixOf bytes then bytes.drop 3 else bytes)).map (List.flatMap unitsOf)

/-! ## JSON strings -/

def jsonNamed : List (Nat × Nat) := [(34, 34), (92, 92), (8, 98), (12, 102), (10, 110), (13, 114), (9, 116)]

def jsonEscape (point : Nat) : Text :=
  match jsonNamed.lookup point with
  | some name => [92, name]
  | none => if point < 32 || isSurrogate point then .of "\\u" ++ padStart (toHex point) 4 48 else unitsOf point

/-- What `JSON.stringify` gives for a string. -/
def jsonQuote (value : Text) : Text := 34 :: (codePoints value).flatMap jsonEscape ++ [34]

def isJsonSpace (c : Nat) : Bool := c ∈ [9, 10, 13, 32]

/-- The unit an escape stands for, and how long the escape is after its backslash. -/
def jsonEscapeAt : Text → Option (Nat × Nat)
  | 117 :: a :: b :: c :: d :: _ =>
    if [a, b, c, d].all fun c => (hexDigit c).isSome then some (parseHex [a, b, c, d], 5) else none
  | 47 :: _ => some (47, 1)
  | name :: _ => (jsonNamed.find? fun named => named.2 = name).map fun named => (named.1, 1)
  | [] => none

/-- The string whose quote has been opened, with white space after it only. -/
def jsonUnquote : (skip : Nat) → Text → Option Text
  | _, [] => none
  | skip + 1, _ :: rest => jsonUnquote skip rest
  | 0, c :: rest =>
    if c = 34 then if rest.all isJsonSpace then some [] else none
    else if c = 92 then do
      let (unit, length) ← jsonEscapeAt rest
      return unit :: (← jsonUnquote length rest)
    else if c < 32 then none
    else do return c :: (← jsonUnquote 0 rest)

/-- What `JSON.parse` gives, if it is a string. -/
def jsonString (t : Text) : Option Text :=
  match t.dropWhile isJsonSpace with
  | 34 :: rest => jsonUnquote 0 rest
  | _ => none

/-! ## Base 64 -/

def base64Char (value : Nat) : Nat :=
  if value < 26 then 65 + value
  else if value < 52 then 71 + value
  else if value < 62 then value - 4
  else if value = 62 then 43
  else 47

def base64Value (c : Nat) : Option Nat :=
  if 65 ≤ c ∧ c ≤ 90 then some (c - 65)
  else if 97 ≤ c ∧ c ≤ 122 then some (c - 71)
  else if 48 ≤ c ∧ c ≤ 57 then some (c + 4)
  else if c = 43 then some 62
  else if c = 47 then some 63
  else none

def sextets : List Nat → List Nat
  | [] => []
  | [a] => [a / 4, a % 4 * 16]
  | [a, b] => [a / 4, a % 4 * 16 + b / 16, b % 16 * 4]
  | a :: b :: c :: rest => a / 4 :: (a % 4 * 16 + b / 16) :: (b % 16 * 4 + c / 64) :: c % 64 :: sextets rest

/-- The bits that fill no byte are left out. -/
def bytesOf : List Nat → List Nat
  | a :: b :: c :: d :: rest => (a * 4 + b / 16) :: (b % 16 * 16 + c / 4) :: (c % 4 * 64 + d) :: bytesOf rest
  | [a, b, c] => [a * 4 + b / 16, b % 16 * 16 + c / 4]
  | [a, b] => [a * 4 + b / 16]
  | _ => []

def equals : Nat := 61

def btoa (bytes : List Nat) : Text :=
  (sextets bytes).map base64Char ++ List.replicate ((3 - bytes.length % 3) % 3) equals

def stripPadding (t : Text) : Text :=
  if t.endsWith "==" then t.dropLast.dropLast else if t.endsWith "=" then t.dropLast else t

def atob (t : Text) : Option (List Nat) :=
  let data := t.filter (· ∉ [9, 10, 12, 13, 32])
  let data := if data.length % 4 = 0 then stripPadding data else data
  if data.length % 4 = 1 then none else (data.mapM base64Value).map bytesOf

/-- The units `+` and `/` become `-` and `_`. -/
def toUrlChar (c : Nat) : Nat := if c = 43 then 45 else if c = 47 then 95 else c

def ofUrlChar (c : Nat) : Nat := if c = 45 then 43 else if c = 95 then 47 else c

def encodeCacheKeySegment (value : Text) : Text :=
  (((btoa (textEncode (jsonQuote value))).map toUrlChar).reverse.dropWhile (· = equals)).reverse

def isBase64Url (c : Nat) : Bool :=
  (65 ≤ c && c ≤ 90) || (97 ≤ c && c ≤ 122) || (48 ≤ c && c ≤ 57) || c = 95 || c = 45

def decodeCacheKeySegment (encoded : Text) : Option Text :=
  if encoded = [] ∨ ¬ encoded.all isBase64Url ∨ encoded.length % 4 = 1 then none
  else do
    let bytes ← atob (encoded.map ofUrlChar ++ List.replicate ((4 - encoded.length % 4) % 4) equals)
    let decoded ← textDecode bytes
    jsonString decoded

end Veryfront.Cache
