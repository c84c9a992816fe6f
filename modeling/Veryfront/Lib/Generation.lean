import Mathlib.Tactic.TypeStar

/-!
# Generation stamps

A ledger gives each key at most one stamp and never gives the same stamp twice: a fresh stamp comes
from a counter that only grows. A stamp that was read and then renewed or dropped stays stale for good,
whatever happens to its key afterwards.
-/

namespace Veryfront.Lib

structure Ledger (κ : Type*) where
  stamp : κ → Option Nat
  next : Nat

namespace Ledger

variable {κ : Type*}

/-- Every stamp in use was given out before. -/
def Issued (l : Ledger κ) : Prop := ∀ k n, l.stamp k = some n → n < l.next

/-- The stamp of `k` is new or gone. -/
def Renewed (l l' : Ledger κ) (k : κ) : Prop := ∀ n, l'.stamp k = some n → l.next ≤ n ∧ n < l'.next

structure Step (l l' : Ledger κ) : Prop where
  grows : l.next ≤ l'.next
  keys : ∀ k, l'.stamp k = l.stamp k ∨ Renewed l l' k

/-- `n` was given out and is not the stamp of `k` any more. -/
def Stale (l : Ledger κ) (k : κ) (n : Nat) : Prop := n < l.next ∧ l.stamp k ≠ some n

theorem Step.refl (l : Ledger κ) : Step l l := ⟨Nat.le_refl _, fun _ => .inl rfl⟩

theorem Step.issued {l l' : Ledger κ} (h : Step l l') (hl : l.Issued) : l'.Issued := by
  intro k n hn
  rcases h.keys k with hk | hk
  · exact Nat.lt_of_lt_of_le (hl k n (hk ▸ hn)) h.grows
  · exact (hk n hn).2

theorem Renewed.stale {l l' : Ledger κ} (h : Step l l') {k : κ} (hk : Renewed l l' k) {n : Nat} (hn : n < l.next) :
    l'.Stale k n :=
  ⟨Nat.lt_of_lt_of_le hn h.grows, fun heq => Nat.lt_irrefl n (Nat.lt_of_lt_of_le hn (hk n heq).1)⟩

theorem Step.stale {l l' : Ledger κ} (h : Step l l') {k : κ} {n : Nat} (hs : l.Stale k n) : l'.Stale k n := by
  rcases h.keys k with hk | hk
  · exact ⟨Nat.lt_of_lt_of_le hs.1 h.grows, hk ▸ hs.2⟩
  · exact hk.stale h hs.1

end Ledger

end Veryfront.Lib
