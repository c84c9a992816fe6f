import Mathlib.Data.List.Basic

/-!
# Decimal numbers

The digits of a number as the codes of their characters, and the value of a text of digits, leading zeros included.
-/

namespace Veryfront.Lib

def decimal (n : Nat) : List Nat := (Nat.toDigits 10 n).map Char.toNat

def IsDecimal (text : List Nat) : Prop := text ≠ [] ∧ ∀ code ∈ text, 48 ≤ code ∧ code ≤ 57

instance (text : List Nat) : Decidable (IsDecimal text) := inferInstanceAs (Decidable (_ ∧ _))

def digitsValue (text : List Nat) : Nat := text.foldl (fun n code => 10 * n + (code - 48)) 0

theorem isDecimal_decimal (n : Nat) : IsDecimal (decimal n) := by
  refine ⟨by simp [decimal, Nat.toDigits_ne_nil], fun code hcode => ?_⟩
  obtain ⟨c, hc, rfl⟩ := List.mem_map.mp hcode
  have hdigit := Nat.isDigit_of_mem_toDigits (by decide) (by decide) hc
  rw [Char.isDigit, Bool.and_eq_true, decide_eq_true_eq, decide_eq_true_eq] at hdigit
  exact hdigit

theorem digitsValue_decimal (n : Nat) : digitsValue (decimal n) = n := by
  have hvalue := Nat.ofDigitChars_ten_toDigits (n := n)
  rw [Nat.ofDigitChars_eq_foldl] at hvalue
  rw [digitsValue, decimal, List.foldl_map]
  exact hvalue

end Veryfront.Lib
