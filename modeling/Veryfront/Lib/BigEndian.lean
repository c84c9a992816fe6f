import Mathlib.Algebra.Group.Nat.Defs
import Mathlib.Data.List.Basic
import Mathlib.Data.List.Induction

/-!
# Big-endian numbers
-/

namespace Veryfront.Lib.BigEndian

/-- The last `width` octets of a number, the highest first. -/
def write : (width n : Nat) → List Nat
  | 0, _ => []
  | width + 1, n => write width (n / 256) ++ [n % 256]

def read (bytes : List Nat) : Nat := bytes.foldl (fun n byte => 256 * n + byte) 0

@[simp] theorem length_write (width n : Nat) : (write width n).length = width := by
  induction width generalizing n with
  | zero => rfl
  | succ width ih => rw [write, List.length_append, ih, List.length_singleton]

theorem read_concat (bytes : List Nat) (byte : Nat) : read (bytes ++ [byte]) = 256 * read bytes + byte := by
  rw [read, List.foldl_append]
  rfl

theorem read_write {width n : Nat} (h : n < 256 ^ width) : read (write width n) = n := by
  induction width generalizing n with
  | zero => exact (Nat.lt_one_iff.mp h).symm
  | succ width ih =>
    rw [write, read_concat, ih ((Nat.div_lt_iff_lt_mul (by decide)).mpr (by rwa [Nat.pow_succ] at h)), Nat.div_add_mod]

theorem write_read {bytes : List Nat} (h : ∀ byte ∈ bytes, byte < 256) : write bytes.length (read bytes) = bytes := by
  induction bytes using List.reverseRecOn with
  | nil => rfl
  | append_singleton bytes byte ih =>
    have hbyte := h byte (List.mem_append_right _ (List.mem_singleton_self _))
    have hdiv : (256 * read bytes + byte) / 256 = read bytes := by omega
    have hmod : (256 * read bytes + byte) % 256 = byte := by omega
    rw [List.length_append, List.length_singleton, write, read_concat, hdiv, hmod,
      ih fun b hb => h b (List.mem_append_left _ hb)]

theorem read_lt {bytes : List Nat} (h : ∀ byte ∈ bytes, byte < 256) : read bytes < 256 ^ bytes.length := by
  induction bytes using List.reverseRecOn with
  | nil => exact Nat.one_pos
  | append_singleton bytes byte ih =>
    have hbyte := h byte (List.mem_append_right _ (List.mem_singleton_self _))
    have hbytes := ih fun b hb => h b (List.mem_append_left _ hb)
    rw [read_concat, List.length_append, List.length_singleton, Nat.pow_succ]
    omega

end Veryfront.Lib.BigEndian
