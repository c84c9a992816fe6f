import Veryfront.Lib.Unicode
import Veryfront.Utils.Hex

/-!
# Escapes of a URI component

Letters, digits and a few marks stand for themselves. Of any other code point each octet of its UTF-8 form is
escaped, and a surrogate that stands alone has none.
-/

namespace Veryfront

open Lib

def percent : Nat := 37

/-! ## Decoding -/

def octetAt : Text → Option Nat
  | 37 :: high :: low :: _ => do return 16 * (← hexDigit high) + (← hexDigit low)
  | _ => none

/-- The code point whose octets start here, and how many they are. -/
def codePointAt (t : Text) : Option (Nat × Nat) := Utf8.pointAt octetAt 3 t

def decodeFrom : (skip : Nat) → Text → Option Text
  | _, [] => some []
  | skip + 1, _ :: rest => decodeFrom skip rest
  | 0, c :: rest =>
    if c = 37 then do
      let (point, octets) ← codePointAt (c :: rest)
      return unitsOf point ++ (← decodeFrom (3 * octets - 1) rest)
    else do return c :: (← decodeFrom 0 rest)

/-- `none` for the error of a malformed escape. -/
def decodeURIComponent (value : Text) : Option Text := decodeFrom 0 value

/-! ## Encoding -/

/-- Letters, digits and the marks `-_.!~*'()`. -/
def isUnescaped (c : Nat) : Bool :=
  (48 ≤ c && c ≤ 57) || (65 ≤ c && c ≤ 90) || (97 ≤ c && c ≤ 122) || c ∈ [45, 95, 46, 33, 126, 42, 39, 40, 41]

def escapeOctet (octet : Nat) : Text := [percent, upperHex (octet / 16), upperHex (octet % 16)]

def escapePoint (point : Nat) : Text :=
  if isUnescaped point then [point] else (Utf8.encode point).flatMap escapeOctet

/-- `none` for the error of a surrogate that stands alone. -/
def encodeURIComponent (value : Text) : Option Text :=
  if (codePoints value).any isSurrogate then none else some ((codePoints value).flatMap escapePoint)

/-! ## The round trip -/

theorem escape_spelling : Utf8.Spelling octetAt 3 escapeOctet where
  length _ := rfl
  octetAt octet hoctet t := by
    have hhigh := hexDigit_upperHex (show octet / 16 < 16 by omega)
    have hlow := hexDigit_upperHex (show octet % 16 < 16 by omega)
    have hsum : 16 * (octet / 16) + octet % 16 = octet := by omega
    simp [escapeOctet, percent, Veryfront.octetAt, hhigh, hlow, hsum]

theorem decodeFrom_skip (skipped t : Text) : decodeFrom skipped.length (skipped ++ t) = decodeFrom 0 t := by
  induction skipped with
  | nil => rfl
  | cons c skipped ih => exact ih

theorem decodeFrom_escapePoint {point : Nat} (h : Scalar point) (t : Text) :
    decodeFrom 0 (escapePoint point ++ t) = (decodeFrom 0 t).map (unitsOf point ++ ·) := by
  rw [escapePoint]
  split
  · rename_i hun
    have hpercent : point ≠ 37 := by
      rintro rfl
      cases hun
    have hsmall : point < 0x10000 := by
      simp [isUnescaped] at hun
      omega
    rw [List.singleton_append, decodeFrom, if_neg hpercent, unitsOf, if_pos hsmall]
    cases decodeFrom 0 t <;> rfl
  · have hread := Utf8.pointAt_encode escape_spelling h t
    have hlen : ((Utf8.encode point).flatMap escapeOctet).length = 3 * (Utf8.encode point).length := by
      simp [List.length_flatMap, escapeOctet, Nat.mul_comm]
    obtain ⟨octet, octets, hoctets⟩ := List.exists_cons_of_length_pos (Utf8.encode_length_pos point)
    obtain ⟨skipped, htext⟩ : ∃ skipped, (Utf8.encode point).flatMap escapeOctet = 37 :: skipped := by
      rw [hoctets]
      exact ⟨_, rfl⟩
    have hskipped : 3 * (Utf8.encode point).length - 1 = skipped.length := by
      rw [← hlen, htext, List.length_cons, Nat.add_sub_cancel]
    rw [htext, List.cons_append] at hread ⊢
    rw [decodeFrom, if_pos rfl, codePointAt, hread]
    simp only [Option.bind_eq_bind, Option.bind_some, hskipped, decodeFrom_skip]
    cases decodeFrom 0 t <;> rfl

theorem decodeURIComponent_escape {points : List Nat} (h : ∀ point ∈ points, Scalar point) :
    decodeURIComponent (points.flatMap escapePoint) = some (points.flatMap unitsOf) := by
  rw [decodeURIComponent]
  induction points with
  | nil => rfl
  | cons point points ih =>
    rw [List.flatMap_cons, decodeFrom_escapePoint (h point List.mem_cons_self), ih fun p hp => h p (List.mem_cons_of_mem _ hp)]
    rfl

end Veryfront
