import Veryfront.Cache.SegmentRoundTrip

/-!
# Bytes of a text

A text takes no more bytes than its parts, and as many as it has units if they are of ASCII. In quotes it takes six bytes
for a unit at most.
-/

namespace Veryfront.Cache

open Lib

theorem encode_length_le (point : Nat) : (Utf8.encode point).length ≤ 4 := by
  rw [Utf8.length_encode]
  split
  · decide
  split
  · decide
  split <;> decide

def pointBytes (points : List Nat) : Nat :=
  (points.flatMap fun point => Utf8.encode (if isSurrogate point then 0xFFFD else point)).length

theorem pointBytes_cons (point : Nat) (points : List Nat) : pointBytes (point :: points) = pointBytes [point] + pointBytes points := by
  simp [pointBytes]

theorem textEncode_append_le (t u : Text) :
    (textEncode (t ++ u)).length ≤ (textEncode t).length + (textEncode u).length := by
  show pointBytes (codePoints (t ++ u)) ≤ pointBytes (codePoints t) + pointBytes (codePoints u)
  induction t using codePoints.induct with
  | case1 => simp [codePoints, pointBytes]
  | case2 unit =>
    cases u with
    | nil => simp [codePoints]
    | cons next u =>
      rw [List.cons_append, List.nil_append, show codePoints [unit] = [unit] from rfl, codePoints.eq_3]
      split
      · next hpair =>
        obtain ⟨hhigh, hlow⟩ := Bool.and_eq_true_iff.mp hpair
        rw [isHighSurrogate_iff] at hhigh
        rw [isLowSurrogate_iff] at hlow
        have hnext : codePoints (next :: u) = next :: codePoints u :=
          codePoints_cons (Bool.eq_false_of_not_eq_true (by rw [isHighSurrogate_iff]; omega)) u
        have hunits : pointBytes [unit] = 3 ∧ pointBytes [next] = 3 := by
          have hunit : isSurrogate unit = true := by rw [isSurrogate_iff]; omega
          have hlast : isSurrogate next = true := by rw [isSurrogate_iff]; omega
          simp [pointBytes, hunit, hlast, Utf8.length_encode]
        have hpoint : pointBytes [pairPoint unit next] ≤ 4 := by
          rw [pointBytes, List.flatMap_singleton]
          exact encode_length_le _
        rw [pointBytes_cons (pairPoint unit next), hnext, pointBytes_cons next]
        omega
      · rw [pointBytes_cons unit]
  | case3 unit next units hpair ih =>
    rw [List.cons_append, List.cons_append, codePoints, if_pos hpair, codePoints, if_pos hpair,
      pointBytes_cons _ (codePoints (units ++ u)), pointBytes_cons _ (codePoints units)]
    omega
  | case4 unit next units hpair ih =>
    rw [List.cons_append, List.cons_append, codePoints, if_neg hpair, codePoints, if_neg hpair,
      pointBytes_cons _ (codePoints (next :: (units ++ u))), pointBytes_cons _ (codePoints (next :: units))]
    rw [List.cons_append] at ih
    omega

theorem textEncode_ascii {t : Text} (h : ∀ unit ∈ t, unit < 128) : (textEncode t).length = t.length := by
  induction t with
  | nil => rfl
  | cons unit t ih =>
    have hunit := h unit List.mem_cons_self
    have hpoints : codePoints (unit :: t) = unit :: codePoints t :=
      codePoints_cons (Bool.eq_false_of_not_eq_true (by rw [isHighSurrogate_iff]; omega)) t
    have hone : pointBytes [unit] = 1 := by
      have hplain : isSurrogate unit = false := Bool.eq_false_of_not_eq_true (by rw [isSurrogate_iff]; omega)
      simp [pointBytes, hplain, Utf8.length_encode, hunit]
    have hrest : pointBytes (codePoints t) = t.length := ih fun u hu => h u (List.mem_cons_of_mem _ hu)
    show pointBytes (codePoints (unit :: t)) = t.length + 1
    rw [hpoints, pointBytes_cons, hone, hrest, Nat.add_comm]

/-! ## Quoted texts -/

theorem textEncode_unit_le (unit : Nat) (t : Text) : (textEncode (unit :: t)).length ≤ (textEncode [unit]).length + (textEncode t).length :=
  textEncode_append_le [unit] t

theorem jsonEscape_bytes_le {point : Nat} (h : point < 0x110000) : (textEncode (jsonEscape point)).length ≤ 6 * (unitsOf point).length := by
  have hunits : 1 ≤ (unitsOf point).length := by
    rw [unitsOf]
    split <;> simp
  rw [jsonEscape]
  split
  · rename_i name hname
    have hnamed : ∀ named ∈ jsonNamed, named.2 < 128 := by decide
    have hascii : ∀ unit ∈ [92, name], unit < 128 := by simpa using hnamed _ (jsonNamed_lookup hname)
    rw [textEncode_ascii hascii]
    change 2 ≤ _
    omega
  split
  · rename_i hspecial
    have hlt : point < 0x10000 := by
      simp only [Bool.or_eq_true, decide_eq_true_eq, isSurrogate_iff] at hspecial
      omega
    have hmarks : ∀ unit ∈ Text.of "\\u", unit < 128 := by decide
    have hascii : ∀ unit ∈ Text.of "\\u" ++ padStart (toHex point) 4 48, unit < 128 := by
      intro unit hunit
      rcases List.mem_append.mp hunit with hunit | hunit
      · exact hmarks unit hunit
      · rw [padStart_toHex hlt] at hunit
        have hrange := hexDigits_lowerHex_range hlt unit hunit
        omega
    rw [textEncode_ascii hascii, padStart_toHex hlt, List.length_append]
    change 6 ≤ _
    omega
  · rename_i hplain
    have hscalar : Scalar point := ⟨h, by simp at hplain; simp [hplain.2]⟩
    have hpoints : codePoints (unitsOf point) = [point] := by simpa [codePoints] using codePoints_unitsOf hscalar []
    have hbytes := encode_length_le (if isSurrogate point then 0xFFFD else point)
    rw [textEncode, hpoints, List.flatMap_singleton]
    omega

theorem jsonQuote_bytes_le {value : Text} (h : ∀ unit ∈ value, unit < 0x10000) :
    (textEncode (jsonQuote value)).length ≤ 2 + 6 * value.length := by
  have hbody : ∀ points : List Nat, (∀ point ∈ points, point < 0x110000) →
      (textEncode (points.flatMap jsonEscape)).length ≤ 6 * (points.flatMap unitsOf).length := by
    intro points
    induction points with
    | nil => exact fun _ => Nat.le_refl _
    | cons point points ih =>
      intro hpoints
      have hhere := jsonEscape_bytes_le (hpoints point List.mem_cons_self)
      have hrest := ih fun other hother => hpoints other (List.mem_cons_of_mem _ hother)
      have hboth := textEncode_append_le (jsonEscape point) (points.flatMap jsonEscape)
      rw [List.flatMap_cons, List.flatMap_cons, List.length_append]
      omega
  have hpoints := hbody _ (codePoints_lt h)
  rw [flatMap_unitsOf_codePoints h] at hpoints
  have hopened := textEncode_unit_le 34 ((codePoints value).flatMap jsonEscape ++ [34])
  have hclosed := textEncode_append_le ((codePoints value).flatMap jsonEscape) [34]
  have hquote : (textEncode [34]).length = 1 := by decide
  rw [jsonQuote, List.cons_append]
  omega

end Veryfront.Cache
