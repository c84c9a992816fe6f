import Mathlib.Algebra.Group.Nat.Defs
import Veryfront.Lib.Framing

/-!
# The bits of a word

The last bits of a word as a list, the highest first, and what the shifts and masks of a register do to them. Words of
one width can be told apart in the bits of a list of them.
-/

namespace Veryfront.Lib.Bits

variable {w v : Nat}

/-- The last `count` bits of a word, the highest first. -/
def lowBits : (count : Nat) → BitVec w → List Bool
  | 0, _ => []
  | count + 1, x => x.getLsbD count :: lowBits count x

def wordBits (x : BitVec w) : List Bool := lowBits w x

/-- No bit is set but the last `count`. -/
def Below (count : Nat) (x : BitVec w) : Prop := ∀ i, count ≤ i → x.getLsbD i = false

/-! ## Lists of bits -/

@[simp] theorem length_lowBits (count : Nat) (x : BitVec w) : (lowBits count x).length = count := by
  induction count with
  | zero => rfl
  | succ count ih => rw [lowBits, List.length_cons, ih]

@[simp] theorem length_wordBits (x : BitVec w) : (wordBits x).length = w := length_lowBits w x

variable {count : Nat} {x : BitVec w}

theorem lowBits_congr {y : BitVec v} (h : ∀ i < count, x.getLsbD i = y.getLsbD i) :
    lowBits count x = lowBits count y := by
  induction count with
  | zero => rfl
  | succ count ih => rw [lowBits, lowBits, h count (Nat.lt_succ_self _), ih fun i hi => h i (Nat.lt_succ_of_lt hi)]

theorem getLsbD_of_lowBits {y : BitVec v} (h : lowBits count x = lowBits count y) :
    ∀ i < count, x.getLsbD i = y.getLsbD i := by
  induction count with
  | zero => exact fun i hi => absurd hi (Nat.not_lt_zero i)
  | succ count ih =>
    obtain ⟨hfirst, hrest⟩ := List.cons.inj h
    intro i hi
    rcases Nat.lt_succ_iff_lt_or_eq.mp hi with hi | rfl
    · exact ih hrest i hi
    · exact hfirst

theorem wordBits_injective : Function.Injective (wordBits : BitVec w → List Bool) := by
  intro x y h
  exact BitVec.eq_of_getLsbD_eq fun i hi => getLsbD_of_lowBits h i hi

theorem lowBits_zero (count : Nat) : lowBits count (0#w) = List.replicate count false := by
  induction count with
  | zero => rfl
  | succ count ih =>
    rw [lowBits, ih, List.replicate_succ]
    congr 1
    exact BitVec.getLsbD_zero

theorem eq_zero_iff (h : Below count x) : x = 0#w ↔ lowBits count x = List.replicate count false := by
  constructor
  · rintro rfl
    exact lowBits_zero count
  · intro hbits
    rw [← lowBits_zero (w := w)] at hbits
    apply BitVec.eq_of_getLsbD_eq
    intro i _
    rcases Nat.lt_or_ge i count with hi | hi
    · exact getLsbD_of_lowBits hbits i hi
    · rw [h i hi]
      exact BitVec.getLsbD_zero.symm

/-! ## Registers -/

theorem lowBits_add {a b : Nat} (h : a + b ≤ w) :
    lowBits (a + b) x = lowBits a (x.sshiftRight b) ++ lowBits b x := by
  induction a with
  | zero => rw [Nat.zero_add, lowBits, List.nil_append]
  | succ a ih =>
    have hbit : x.getLsbD (a + b) = (x.sshiftRight b).getLsbD a := by
      rw [BitVec.getLsbD_sshiftRight, Nat.add_comm b a]
      simp [show ¬ w ≤ a by omega, show a + b < w by omega]
    rw [Nat.succ_add, lowBits, lowBits, List.cons_append, ih (by omega), hbit]

theorem lowBits_shiftIn {a b : Nat} {y : BitVec w} (h : a + b ≤ w) (hy : Below b y) :
    lowBits (a + b) (x <<< b ||| y) = lowBits a x ++ lowBits b y := by
  rw [lowBits_add h]
  congr 1
  · apply lowBits_congr
    intro i hi
    rw [BitVec.getLsbD_sshiftRight, BitVec.getLsbD_or, BitVec.getLsbD_shiftLeft, hy (b + i) (by omega)]
    simp [show ¬ w ≤ i by omega, show b + i < w by omega]
  · apply lowBits_congr
    intro i hi
    rw [BitVec.getLsbD_or, BitVec.getLsbD_shiftLeft]
    simp [hi]

theorem Below.shiftIn {a b : Nat} {y : BitVec w} (hx : Below a x) (hy : Below b y) : Below (a + b) (x <<< b ||| y) := by
  intro i hi
  rw [BitVec.getLsbD_or, BitVec.getLsbD_shiftLeft, hy i (by omega), hx (i - b) (by omega), Bool.and_false, Bool.or_false]

theorem below_setWidth (x : BitVec v) : Below v (x.setWidth w) := by
  intro i hi
  rw [BitVec.getLsbD_setWidth, BitVec.getLsbD_of_ge x i hi, Bool.and_false]

theorem lowBits_setWidth (x : BitVec w) (h : count ≤ v) : lowBits count (x.setWidth v) = lowBits count x := by
  apply lowBits_congr
  intro i hi
  rw [BitVec.getLsbD_setWidth]
  simp [show i < v by omega]

/-! ## Masks -/

theorem getLsbD_mask {i : Nat} (h : count ≤ w) : (BitVec.ofNat w (2 ^ count - 1)).getLsbD i = decide (i < count) := by
  rw [BitVec.getLsbD_ofNat, Nat.testBit_two_pow_sub_one, ← Bool.decide_and, decide_eq_decide]
  omega

theorem setWidth_mask (h : v ≤ w) : (x &&& BitVec.ofNat w (2 ^ v - 1)).setWidth v = x.setWidth v := by
  apply BitVec.eq_of_getLsbD_eq
  intro i hi
  rw [BitVec.getLsbD_setWidth, BitVec.getLsbD_setWidth, BitVec.getLsbD_and, getLsbD_mask h]
  simp [hi]

theorem lowBits_mask (h : count ≤ w) :
    lowBits count (x &&& BitVec.ofNat w (2 ^ count - 1)) = lowBits count x := by
  apply lowBits_congr
  intro i hi
  rw [BitVec.getLsbD_and, getLsbD_mask h, decide_eq_true hi, Bool.and_true]

theorem below_mask (x : BitVec w) (h : count ≤ w) : Below count (x &&& BitVec.ofNat w (2 ^ count - 1)) := by
  intro i hi
  rw [BitVec.getLsbD_and, getLsbD_mask h, decide_eq_false (Nat.not_lt.mpr hi), Bool.and_false]

/-! ## Words in a row -/

theorem length_flatMap_wordBits (words : List (BitVec w)) : (words.flatMap wordBits).length = w * words.length := by
  induction words with
  | nil => rfl
  | cons word words ih => rw [List.flatMap_cons, List.length_append, ih, length_wordBits, List.length_cons, Nat.mul_succ, Nat.add_comm]

theorem flatMap_wordBits_inj {xs ys : List (BitVec w)} {s t : List Bool} (hlength : xs.length = ys.length)
    (h : xs.flatMap wordBits ++ s = ys.flatMap wordBits ++ t) : xs = ys ∧ s = t :=
  SelfDelimiting.flatMap (P := fun _ => True)
    (SelfDelimiting.of_width length_wordBits fun _ _ _ _ heq => wordBits_injective heq) hlength
    (fun _ _ => trivial) (fun _ _ => trivial) h

end Veryfront.Lib.Bits
