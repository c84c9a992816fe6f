import Veryfront.Utils.Text
import Mathlib.Algebra.Group.Nat.Defs
import Mathlib.Data.List.Induction

/-!
# Hexadecimal text
-/

namespace Veryfront

/-- In either case. -/
def hexDigit (c : Nat) : Option Nat :=
  if 48 ≤ c ∧ c ≤ 57 then some (c - 48)
  else if 65 ≤ c ∧ c ≤ 70 then some (c - 55)
  else if 97 ≤ c ∧ c ≤ 102 then some (c - 87)
  else none

def upperHex (digit : Nat) : Nat := if digit < 10 then 48 + digit else 55 + digit

def lowerHex (digit : Nat) : Nat := if digit < 10 then 48 + digit else 87 + digit

theorem hexDigit_upperHex {digit : Nat} (h : digit < 16) : hexDigit (upperHex digit) = some digit := by
  revert h
  revert digit
  decide

theorem hexDigit_lowerHex {digit : Nat} (h : digit < 16) : hexDigit (lowerHex digit) = some digit := by
  revert h
  revert digit
  decide

/-- In base 16, without leading zeros. -/
def toHex (n : Nat) : Text := if n < 16 then [lowerHex n] else toHex (n / 16) ++ [lowerHex (n % 16)]

def padStart (t : Text) (length fill : Nat) : Text := List.replicate (length - t.length) fill ++ t

/-- The digits of a code unit, in either case. -/
def hexDigits (digit : Nat → Nat) (n : Nat) : Text :=
  [digit (n / 4096), digit (n / 256 % 16), digit (n / 16 % 16), digit (n % 16)]

theorem padStart_toHex {n : Nat} (h : n < 0x10000) : padStart (toHex n) 4 48 = hexDigits lowerHex n := by
  have hzero : lowerHex 0 = 48 := rfl
  have h1 : n / 16 / 16 = n / 256 := by omega
  have h2 : n / 256 / 16 = n / 4096 := by omega
  rw [hexDigits, toHex]
  split
  · have hn : n / 4096 = 0 ∧ n / 256 % 16 = 0 ∧ n / 16 % 16 = 0 ∧ n % 16 = n := by omega
    rw [hn.1, hn.2.1, hn.2.2.1, hn.2.2.2, hzero]
    rfl
  rw [toHex]
  split
  · have hn : n / 4096 = 0 ∧ n / 256 % 16 = 0 ∧ n / 16 % 16 = n / 16 := by omega
    rw [hn.1, hn.2.1, hn.2.2, hzero]
    rfl
  rw [toHex, h1]
  split
  · have hn : n / 4096 = 0 ∧ n / 256 % 16 = n / 256 := by omega
    rw [hn.1, hn.2, hzero]
    rfl
  rw [toHex, h2, if_pos (by omega)]
  rfl

def parseHex (t : Text) : Nat := t.foldl (fun n c => 16 * n + (hexDigit c).getD 0) 0

theorem parseHex_hexDigits {digit : Nat → Nat} (hdigit : ∀ d < 16, hexDigit (digit d) = some d) {n : Nat} (h : n < 0x10000) :
    parseHex (hexDigits digit n) = n := by
  simp only [parseHex, hexDigits, List.foldl_cons, List.foldl_nil, hdigit (n / 4096) (by omega),
    hdigit (n / 256 % 16) (by omega), hdigit (n / 16 % 16) (by omega), hdigit (n % 16) (by omega), Option.getD_some]
  omega

theorem parseHex_concat (t : Text) (c : Nat) : parseHex (t ++ [c]) = 16 * parseHex t + (hexDigit c).getD 0 := by
  rw [parseHex, List.foldl_append]
  rfl

theorem parseHex_lt (t : Text) : parseHex t < 16 ^ t.length := by
  induction t using List.reverseRecOn with
  | nil => exact Nat.one_pos
  | append_singleton t c ih =>
    have hdigit : (hexDigit c).getD 0 < 16 := by
      rw [hexDigit]
      split
      · rw [Option.getD_some]
        omega
      split
      · rw [Option.getD_some]
        omega
      split
      · rw [Option.getD_some]
        omega
      · decide
    rw [parseHex_concat, List.length_append, List.length_singleton, Nat.pow_succ]
    omega

theorem parseHex_toHex (n : Nat) : parseHex (toHex n) = n := by
  induction n using Nat.strong_induction_on with
  | h n ih =>
    rw [toHex]
    split
    · rename_i hn
      simp [parseHex, hexDigit_lowerHex hn]
    · rw [parseHex_concat, ih (n / 16) (by omega), hexDigit_lowerHex (Nat.mod_lt _ (by decide)), Option.getD_some,
        Nat.div_add_mod]

theorem mem_toHex {n c : Nat} (h : c ∈ toHex n) : ∃ digit < 16, c = lowerHex digit := by
  induction n using Nat.strong_induction_on with
  | h n ih =>
    rw [toHex] at h
    split at h
    · rename_i hn
      exact ⟨n, hn, List.mem_singleton.mp h⟩
    · rcases List.mem_append.mp h with h | h
      · exact ih (n / 16) (by omega) h
      · exact ⟨n % 16, Nat.mod_lt _ (by decide), List.mem_singleton.mp h⟩

theorem length_toHex {n : Nat} (h : n < 0x10000) : 1 ≤ (toHex n).length ∧ (toHex n).length ≤ 4 := by
  have hpad := congrArg List.length (padStart_toHex h)
  rw [padStart, List.length_append, List.length_replicate, hexDigits] at hpad
  simp only [List.length_cons, List.length_nil] at hpad
  have hne : toHex n ≠ [] := by
    rw [toHex]
    split
    · exact List.cons_ne_nil _ _
    · simp
  have hpos := List.length_pos_iff.mpr hne
  omega

end Veryfront
