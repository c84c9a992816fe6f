import Veryfront.Lib.Bits
import Veryfront.Utils.Text

/-!
# Texts of auth cookies

The strict base 64 that the values of auth cookies are spelled in, which shifts bytes through a register of 32 bits, and
the envelope around what has been encrypted.
-/

namespace Veryfront.Security.Auth

open Lib

abbrev Byte := BitVec 8

/-- A number after the operators on bits, which give one of 32 bits. -/
abbrev Register := BitVec 32

def base64UrlAlphabet : Text := .of "ABCDEFGHIJKLMNOPQRSTUVWXYZabcdefghijklmnopqrstuvwxyz0123456789-_"

def isBase64UrlUnit (c : Nat) : Bool := (65 ≤ c && c ≤ 90) || (97 ≤ c && c ≤ 122) || (48 ≤ c && c ≤ 57) || c = 95 || c = 45

def base64UrlPattern (value : Text) : Bool := value.all isBase64UrlUnit

inductive AuthCookieError where
  | typeError (message : String)
  | sizeLimit (message : String)
deriving DecidableEq

/-! ## Encoding -/

structure Encoder where
  output : Text
  buffer : Register
  bits : Nat

/-- The unit at an index that has been masked. -/
def alphabetAt (index : Register) : Nat := base64UrlAlphabet.getD index.toNat 0

def writeSextets (buffer : Register) : (bits : Nat) → Text → Encoder
  | bits + 6, output => writeSextets buffer bits (output ++ [alphabetAt (buffer.sshiftRight bits &&& 63)])
  | bits, output => ⟨output, buffer, bits⟩

def Encoder.push (e : Encoder) (byte : Byte) : Encoder :=
  writeSextets (e.buffer <<< 8 ||| byte.setWidth 32) (e.bits + 8) e.output

def encodeAuthBase64Url (bytes : List Byte) : Text :=
  let e := bytes.foldl Encoder.push ⟨[], 0, 0⟩
  if 0 < e.bits then e.output ++ [alphabetAt (e.buffer <<< (6 - e.bits) &&& 63)] else e.output

/-! ## Decoding -/

structure Decoder where
  bytes : Buffer Byte
  buffer : Register
  bits : Nat

/-- Of the register stays what belongs to the next byte. -/
def keptBits (bits : Nat) : Register := if bits = 0 then 0 else ((1 : Register) <<< bits) - 1

def Decoder.push (d : Decoder) (decoded : Nat) : Decoder :=
  let buffer := d.buffer <<< 6 ||| BitVec.ofNat 32 decoded
  let bits := d.bits + 6
  if 8 ≤ bits then
    let bits := bits - 8
    ⟨d.bytes.put ((buffer.sshiftRight bits &&& 255).setWidth 8), buffer &&& keptBits bits, bits⟩
  else ⟨d.bytes, buffer, bits⟩

def notBase64Url : AuthCookieError := .typeError "Auth cookie value must use strict unpadded base64url"

def Decoder.read (d : Decoder) (character : Nat) : Except AuthCookieError Decoder :=
  match base64UrlAlphabet.idxOf? character with
  | none => .error notBase64Url
  | some decoded => .ok (d.push decoded)

def decodeAuthBase64Url (value : Text) : Except AuthCookieError (List Byte) := do
  if value.length % 4 = 1 ∨ ¬ base64UrlPattern value then throw notBase64Url
  let d ← value.foldlM Decoder.read ⟨⟨List.replicate (value.length * 3 / 4) 0, 0⟩, 0, 0⟩
  if 0 < d.bits ∧ d.buffer ≠ 0 then throw (.typeError "Auth cookie value has non-canonical base64url trailing bits")
  return d.bytes.cells

/-! ## Envelopes -/

def dot : Nat := 46

def envelopePrefix : Text := .of "v1."

def maxEnvelopeChars : Nat := 3800

def maxPlaintextJsonBytes : Nat := 2750

def ivBytes : Nat := 12

structure ParsedEnvelope where
  iv : List Byte
  ciphertext : List Byte

/-- What `sealAuthCookieEnvelope` makes of the vector and of what has been encrypted. -/
def envelopeValue (iv encrypted : List Byte) : Except AuthCookieError Text := do
  let value := envelopePrefix ++ encodeAuthBase64Url iv ++ dot :: encodeAuthBase64Url encrypted
  if maxEnvelopeChars < value.length then throw (.sizeLimit "Auth cookie envelope exceeds the size limit")
  return value

def parseEnvelope (value : Text) : Except AuthCookieError ParsedEnvelope := do
  if ¬ value.startsWith "v1." then throw (.typeError "Auth cookie envelope version is unsupported")
  match (value.drop envelopePrefix.length).splitOn dot with
  | [encodedIv, encodedCiphertext] =>
    if encodedIv = [] ∨ encodedCiphertext = [] then throw (.typeError "Auth cookie envelope contains an empty segment")
    let iv ← decodeAuthBase64Url encodedIv
    if iv.length ≠ ivBytes then throw (.typeError "Auth cookie envelope IV must be 96 bits")
    return ⟨iv, ← decodeAuthBase64Url encodedCiphertext⟩
  | _ => throw (.typeError "Auth cookie envelope must contain exactly two base64url segments")

/-- What `openAuthCookieEnvelope` hands to the cipher. -/
def openEnvelope (value : Text) : Except AuthCookieError ParsedEnvelope := do
  if maxEnvelopeChars < value.length then throw (.typeError "Auth cookie envelope exceeds the size limit")
  parseEnvelope value

end Veryfront.Security.Auth
