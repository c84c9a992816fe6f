import Mathlib.Data.List.Basic
import Mathlib.Tactic.NormNum

/-!
# Code points and their encodings

UTF-16 code units, where a surrogate may stand alone, and the octets of UTF-8, which the decoder reads from whatever
spells them.
-/

namespace Veryfront.Lib

/-! ## UTF-16 -/

def isHighSurrogate (unit : Nat) : Bool := 0xD800 ≤ unit && unit ≤ 0xDBFF

def isLowSurrogate (unit : Nat) : Bool := 0xDC00 ≤ unit && unit ≤ 0xDFFF

def isSurrogate (point : Nat) : Bool := 0xD800 ≤ point && point ≤ 0xDFFF

structure Scalar (point : Nat) : Prop where
  lt : point < 0x110000
  not_surrogate : ¬ isSurrogate point

def unitsOf (point : Nat) : List Nat :=
  if point < 0x10000 then [point] else [0xD800 + (point - 0x10000) / 0x400, 0xDC00 + (point - 0x10000) % 0x400]

def pairPoint (high low : Nat) : Nat := 0x10000 + (high - 0xD800) * 0x400 + (low - 0xDC00)

/-- A surrogate that has no partner stands for itself. -/
def codePoints : List Nat → List Nat
  | [] => []
  | [unit] => [unit]
  | unit :: next :: units =>
    if isHighSurrogate unit && isLowSurrogate next then pairPoint unit next :: codePoints units
    else unit :: codePoints (next :: units)

/-- No surrogate stands alone. -/
def WellFormed (units : List Nat) : Prop := ∀ point ∈ codePoints units, isSurrogate point = false

theorem isSurrogate_iff {point : Nat} : isSurrogate point = true ↔ 0xD800 ≤ point ∧ point ≤ 0xDFFF := by
  simp [isSurrogate]

variable {unit : Nat}

theorem isHighSurrogate_iff : isHighSurrogate unit = true ↔ 0xD800 ≤ unit ∧ unit ≤ 0xDBFF := by
  simp [isHighSurrogate]

theorem isLowSurrogate_iff : isLowSurrogate unit = true ↔ 0xDC00 ≤ unit ∧ unit ≤ 0xDFFF := by
  simp [isLowSurrogate]

theorem unitsOf_pair {next : Nat} (hhigh : isHighSurrogate unit = true) (hlow : isLowSurrogate next = true) :
    unitsOf (pairPoint unit next) = [unit, next] := by
  rw [isHighSurrogate_iff] at hhigh
  rw [isLowSurrogate_iff] at hlow
  have hlarge : ¬ pairPoint unit next < 0x10000 := by unfold pairPoint; omega
  have hunit : 0xD800 + (pairPoint unit next - 0x10000) / 0x400 = unit := by unfold pairPoint; omega
  have hnext : 0xDC00 + (pairPoint unit next - 0x10000) % 0x400 = next := by unfold pairPoint; omega
  rw [unitsOf, if_neg hlarge, hunit, hnext]

variable {units : List Nat}

theorem flatMap_unitsOf_codePoints (h : ∀ unit ∈ units, unit < 0x10000) :
    (codePoints units).flatMap unitsOf = units := by
  induction units using codePoints.induct with
  | case1 => rfl
  | case2 unit => simp [codePoints, unitsOf, h unit List.mem_cons_self]
  | case3 unit next units hpair ih =>
    obtain ⟨hhigh, hlow⟩ := Bool.and_eq_true_iff.mp hpair
    rw [codePoints, if_pos hpair, List.flatMap_cons, unitsOf_pair hhigh hlow, ih]
    · rfl
    · exact fun u hu => h u (List.mem_cons_of_mem _ (List.mem_cons_of_mem _ hu))
  | case4 unit next units hpair ih =>
    rw [codePoints, if_neg hpair, List.flatMap_cons, ih fun u hu => h u (List.mem_cons_of_mem _ hu), unitsOf,
      if_pos (h unit List.mem_cons_self)]
    rfl

theorem codePoints_lt (h : ∀ unit ∈ units, unit < 0x10000) : ∀ point ∈ codePoints units, point < 0x110000 := by
  induction units using codePoints.induct with
  | case1 => exact fun _ hp => nomatch hp
  | case2 unit =>
    intro point hp
    obtain rfl := List.mem_singleton.mp hp
    exact Nat.lt_trans (h _ List.mem_cons_self) (by decide)
  | case3 unit next units hpair ih =>
    obtain ⟨hhigh, hlow⟩ := Bool.and_eq_true_iff.mp hpair
    rw [isHighSurrogate_iff] at hhigh
    rw [isLowSurrogate_iff] at hlow
    rw [codePoints, if_pos hpair]
    intro point hp
    rcases List.mem_cons.mp hp with hp | hp
    · rw [hp]
      unfold pairPoint
      omega
    · exact ih (fun u hu => h u (List.mem_cons_of_mem _ (List.mem_cons_of_mem _ hu))) point hp
  | case4 unit next units hpair ih =>
    rw [codePoints, if_neg hpair]
    intro point hp
    rcases List.mem_cons.mp hp with rfl | hp
    · exact Nat.lt_trans (h _ List.mem_cons_self) (by decide)
    · exact ih (fun u hu => h u (List.mem_cons_of_mem _ hu)) point hp

theorem codePoints_cons (h : isHighSurrogate unit = false) (units : List Nat) :
    codePoints (unit :: units) = unit :: codePoints units := by
  cases units with
  | nil => rfl
  | cons next units => simp [codePoints, h]

theorem codePoints_of_basic (h : ∀ unit ∈ units, unit < 0xD800) : codePoints units = units := by
  induction units with
  | nil => rfl
  | cons unit units ih =>
    have hunit := h unit List.mem_cons_self
    rw [codePoints_cons (Bool.eq_false_of_not_eq_true (by rw [isHighSurrogate_iff]; omega)),
      ih fun u hu => h u (List.mem_cons_of_mem _ hu)]

theorem codePoints_of_basic_points (h : ∀ point ∈ codePoints units, point < 0xD800) :
    codePoints units = units := by
  induction units using codePoints.induct with
  | case1 => rfl
  | case2 unit => rfl
  | case3 unit next units hpair ih =>
    rw [codePoints, if_pos hpair] at h
    have hpoint : pairPoint unit next < 0xD800 := h _ List.mem_cons_self
    unfold pairPoint at hpoint
    omega
  | case4 unit next units hpair ih =>
    rw [codePoints, if_neg hpair] at h ⊢
    rw [ih fun point hp => h point (List.mem_cons_of_mem _ hp)]

theorem codePoints_unitsOf {point : Nat} (h : Scalar point) (units : List Nat) :
    codePoints (unitsOf point ++ units) = point :: codePoints units := by
  have hlt := h.lt
  have hno := h.not_surrogate
  rw [isSurrogate_iff] at hno
  rw [unitsOf]
  split
  · exact codePoints_cons (Bool.eq_false_of_not_eq_true (by rw [isHighSurrogate_iff]; omega)) units
  · have hpair : (isHighSurrogate (0xD800 + (point - 0x10000) / 0x400) &&
        isLowSurrogate (0xDC00 + (point - 0x10000) % 0x400)) = true := by
      rw [Bool.and_eq_true, isHighSurrogate_iff, isLowSurrogate_iff]
      omega
    have hpoint : pairPoint (0xD800 + (point - 0x10000) / 0x400) (0xDC00 + (point - 0x10000) % 0x400) = point := by
      unfold pairPoint
      omega
    rw [List.cons_append, List.singleton_append, codePoints, if_pos hpair, hpoint]

theorem codePoints_flatMap_unitsOf {points : List Nat} (h : ∀ p ∈ points, Scalar p) :
    codePoints (points.flatMap unitsOf) = points := by
  induction points with
  | nil => rfl
  | cons point points ih =>
    rw [List.flatMap_cons, codePoints_unitsOf (h point List.mem_cons_self), ih fun p hp => h p (List.mem_cons_of_mem _ hp)]

theorem flatMap_units_injective {a b : String}
    (h : (a.toList.map Char.toNat).flatMap unitsOf = (b.toList.map Char.toNat).flatMap unitsOf) : a = b := by
  have hscalar (s : String) : ∀ point ∈ s.toList.map Char.toNat, Scalar point := by
    intro point hpoint
    obtain ⟨c, -, rfl⟩ := List.mem_map.mp hpoint
    have hvalid : c.toNat < 0xD800 ∨ (0xDFFF < c.toNat ∧ c.toNat < 0x110000) := c.valid
    refine ⟨by omega, ?_⟩
    rw [isSurrogate_iff]
    omega
  have hpoints := congrArg codePoints h
  rw [codePoints_flatMap_unitsOf (hscalar a), codePoints_flatMap_unitsOf (hscalar b)] at hpoints
  have hinj : Function.Injective Char.toNat := fun c d hcd => Char.ext (UInt32.toNat_inj.mp hcd)
  exact String.toList_inj.mp (List.map_injective_iff.mpr hinj hpoints)

theorem WellFormed.codePoints_append (h : WellFormed units) (more : List Nat) :
    codePoints (units ++ more) = codePoints units ++ codePoints more := by
  induction units using codePoints.induct with
  | case1 => rfl
  | case2 unit =>
    have hno := h unit List.mem_cons_self
    have hhigh : isHighSurrogate unit = false := by
      rw [Bool.eq_false_iff, ne_eq, isHighSurrogate_iff]
      rw [Bool.eq_false_iff, ne_eq, isSurrogate_iff] at hno
      omega
    exact codePoints_cons hhigh more
  | case3 unit next units hpair ih =>
    rw [WellFormed, codePoints, if_pos hpair] at h
    have htail := ih fun p hp => h p (List.mem_cons_of_mem _ hp)
    rw [List.cons_append, List.cons_append, codePoints, codePoints, if_pos hpair, if_pos hpair, htail]
    rfl
  | case4 unit next units hpair ih =>
    rw [WellFormed, codePoints, if_neg hpair] at h
    have htail := ih fun p hp => h p (List.mem_cons_of_mem _ hp)
    rw [List.cons_append, List.cons_append, codePoints, codePoints, if_neg hpair, if_neg hpair, ← List.cons_append, htail]
    rfl

theorem codePoints_append_cons (h : isSurrogate unit = false) (units more : List Nat) :
    codePoints (units ++ unit :: more) = codePoints units ++ unit :: codePoints more := by
  rw [Bool.eq_false_iff, ne_eq, isSurrogate_iff] at h
  have hhigh : isHighSurrogate unit = false := Bool.eq_false_of_not_eq_true (by rw [isHighSurrogate_iff]; omega)
  have hlow : isLowSurrogate unit = false := Bool.eq_false_of_not_eq_true (by rw [isLowSurrogate_iff]; omega)
  induction units using codePoints.induct with
  | case1 => exact codePoints_cons hhigh more
  | case2 first =>
    have hfirst : codePoints (first :: unit :: more) = first :: codePoints (unit :: more) := by
      rw [codePoints, if_neg (by simp [hlow])]
    rw [List.singleton_append, hfirst, codePoints_cons hhigh]
    rfl
  | case3 first next units hpair ih =>
    rw [List.cons_append, List.cons_append, codePoints, codePoints, if_pos hpair, if_pos hpair, ih]
    rfl
  | case4 first next units hpair ih =>
    rw [List.cons_append, List.cons_append, codePoints, codePoints, if_neg hpair, if_neg hpair, ← List.cons_append, ih]
    rfl

theorem WellFormed.append {more : List Nat} (h : WellFormed units) (h' : WellFormed more) : WellFormed (units ++ more) := by
  intro point hp
  rw [h.codePoints_append] at hp
  exact (List.mem_append.mp hp).elim (h point) (h' point)

/-! ## UTF-8 -/

namespace Utf8

def encode (point : Nat) : List Nat :=
  if point < 0x80 then [point]
  else if point < 0x800 then [0xC0 + point / 64, 0x80 + point % 64]
  else if point < 0x10000 then [0xE0 + point / 4096, 0x80 + point / 64 % 64, 0x80 + point % 64]
  else [0xF0 + point / 262144, 0x80 + point / 4096 % 64, 0x80 + point / 64 % 64, 0x80 + point % 64]

section Decode

variable {α : Type} (octetAt : List α → Option Nat) (width : Nat)

/-- Reads `count` continuation octets after the bits read so far. -/
def continuedBits : (count bits : Nat) → List α → Option Nat
  | 0, bits, _ => some bits
  | count + 1, bits, t => do
    let octet ← octetAt t
    if 0x80 ≤ octet ∧ octet < 0xC0 then continuedBits count (64 * bits + (octet - 0x80)) (t.drop width) else none

/-- The code point whose octets start here, and how many they are. -/
def pointAt (t : List α) : Option (Nat × Nat) := do
  let octet ← octetAt t
  if octet < 0x80 then return (octet, 1)
  else if 0xC0 ≤ octet ∧ octet < 0xE0 then
    let point ← continuedBits octetAt width 1 (octet - 0xC0) (t.drop width)
    if 0x80 ≤ point then return (point, 2) else none
  else if 0xE0 ≤ octet ∧ octet < 0xF0 then
    let point ← continuedBits octetAt width 2 (octet - 0xE0) (t.drop width)
    if 0x800 ≤ point ∧ ¬ (0xD800 ≤ point ∧ point < 0xE000) then return (point, 3) else none
  else if 0xF0 ≤ octet ∧ octet < 0xF8 then
    let point ← continuedBits octetAt width 3 (octet - 0xF0) (t.drop width)
    if 0x10000 ≤ point ∧ point < 0x110000 then return (point, 4) else none
  else none

end Decode

structure Spelling {α : Type} (octetAt : List α → Option Nat) (width : Nat) (spell : Nat → List α) : Prop where
  length : ∀ octet, (spell octet).length = width
  octetAt : ∀ octet < 256, ∀ t, octetAt (spell octet ++ t) = some octet

section Spelling

variable {α : Type} {octetAt : List α → Option Nat} {width : Nat} {spell : Nat → List α}

theorem Spelling.drop (h : Spelling octetAt width spell) (octet : Nat) (t : List α) : (spell octet ++ t).drop width = t := by
  rw [← h.length octet, List.drop_left]

theorem continuedBits_zero (bits : Nat) (t : List α) : continuedBits octetAt width 0 bits t = some bits := rfl

theorem continuedBits_spell (h : Spelling octetAt width spell) {bits : Nat} (hbits : bits < 64) (count before : Nat) (t : List α) :
    continuedBits octetAt width (count + 1) before (spell (0x80 + bits) ++ t) =
      continuedBits octetAt width count (64 * before + bits) t := by
  rw [continuedBits, h.octetAt _ (by omega), h.drop]
  simp only [Option.bind_eq_bind, Option.bind_some]
  rw [if_pos (by omega), Nat.add_sub_cancel_left]

theorem pointAt_encode (h : Spelling octetAt width spell) {point : Nat} (hpoint : Scalar point) (t : List α) :
    pointAt octetAt width ((encode point).flatMap spell ++ t) = some (point, (encode point).length) := by
  have hlt := hpoint.lt
  have hno := hpoint.not_surrogate
  rw [isSurrogate_iff] at hno
  rw [pointAt, encode]
  split
  · rename_i h1
    simp only [List.flatMap_cons, List.flatMap_nil, List.append_nil, h.octetAt point (by omega)]
    simp [h1]
  split
  · have hbits : 64 * (point / 64) + point % 64 = point := by omega
    have htext : ([0xC0 + point / 64, 0x80 + point % 64].flatMap spell ++ t) =
        spell (0xC0 + point / 64) ++ (spell (0x80 + point % 64) ++ t) := by simp
    simp only [htext, h.octetAt (0xC0 + point / 64) (by omega), h.drop, Option.bind_eq_bind, Option.bind_some,
      Nat.add_sub_cancel_left]
    rw [if_neg (by omega), if_pos (by omega), continuedBits_spell h (by omega) 0, continuedBits_zero, hbits,
      Option.bind_some, if_pos (by omega)]
    rfl
  split
  · have hbits : 64 * (64 * (point / 4096) + point / 64 % 64) + point % 64 = point := by omega
    have htext : ([0xE0 + point / 4096, 0x80 + point / 64 % 64, 0x80 + point % 64].flatMap spell ++ t) =
        spell (0xE0 + point / 4096) ++ (spell (0x80 + point / 64 % 64) ++ (spell (0x80 + point % 64) ++ t)) := by simp
    simp only [htext, h.octetAt (0xE0 + point / 4096) (by omega), h.drop, Option.bind_eq_bind, Option.bind_some,
      Nat.add_sub_cancel_left]
    rw [if_neg (by omega), if_neg (by omega), if_pos (by omega), continuedBits_spell h (by omega) 1,
      continuedBits_spell h (by omega) 0, continuedBits_zero, hbits, Option.bind_some, if_pos (by omega)]
    rfl
  · have hbits : 64 * (64 * (64 * (point / 262144) + point / 4096 % 64) + point / 64 % 64) + point % 64 = point := by omega
    have htext : ([0xF0 + point / 262144, 0x80 + point / 4096 % 64, 0x80 + point / 64 % 64, 0x80 + point % 64].flatMap spell
        ++ t) = spell (0xF0 + point / 262144) ++ (spell (0x80 + point / 4096 % 64) ++
          (spell (0x80 + point / 64 % 64) ++ (spell (0x80 + point % 64) ++ t))) := by simp
    simp only [htext, h.octetAt (0xF0 + point / 262144) (by omega), h.drop, Option.bind_eq_bind, Option.bind_some,
      Nat.add_sub_cancel_left]
    rw [if_neg (by omega), if_neg (by omega), if_neg (by omega), if_pos (by omega), continuedBits_spell h (by omega) 2,
      continuedBits_spell h (by omega) 1, continuedBits_spell h (by omega) 0, continuedBits_zero, hbits, Option.bind_some,
      if_pos (by omega)]
    rfl

end Spelling

theorem encode_lt {point : Nat} (h : point < 0x110000) : ∀ octet ∈ encode point, octet < 256 := by
  rw [encode]
  intro octet ho
  split at ho
  · simp only [List.mem_singleton] at ho
    omega
  split at ho
  · simp only [List.mem_cons, List.not_mem_nil, or_false] at ho
    omega
  split at ho
  · simp only [List.mem_cons, List.not_mem_nil, or_false] at ho
    omega
  · simp only [List.mem_cons, List.not_mem_nil, or_false] at ho
    omega

theorem length_encode (point : Nat) :
    (encode point).length = if point < 0x80 then 1 else if point < 0x800 then 2 else if point < 0x10000 then 3 else 4 := by
  rw [encode]
  split
  · rfl
  split
  · rfl
  split <;> rfl

theorem encode_length_pos (point : Nat) : 0 < (encode point).length := by
  rw [length_encode]
  split
  · exact Nat.one_pos
  split
  · exact Nat.two_pos
  split <;> exact Nat.succ_pos _

end Utf8

end Veryfront.Lib
