import Mathlib.Data.List.Basic
import Mathlib.Control.Basic

/-!
# Tracked values

Beside its value a computation carries a mark, which it gets as soon as it has read from a source that another run need
not share. Two runs agree on what neither of them has marked, and they go on to agree whatever is computed from it.
-/

namespace Veryfront.Lib

universe u v

structure Tracked (α : Type u) where
  value : α
  marked : Bool
deriving DecidableEq

namespace Tracked

variable {α β : Type u} {γ : Type v}

instance : Monad Tracked where
  pure a := ⟨a, false⟩
  bind x f := ⟨(f x.value).value, x.marked || (f x.value).marked⟩

@[simp] theorem value_pure (a : α) : (pure a : Tracked α).value = a := rfl

@[simp] theorem value_bind (x : Tracked α) (f : α → Tracked β) : (x >>= f).value = (f x.value).value := rfl

@[simp] theorem marked_bind (x : Tracked α) (f : α → Tracked β) :
    (x >>= f).marked = (x.marked || (f x.value).marked) := rfl

theorem ext_iff {x y : Tracked α} : x = y ↔ x.value = y.value ∧ x.marked = y.marked := by
  cases x
  cases y
  simp

instance : LawfulMonad Tracked :=
  .mk' Tracked (fun _ => ext_iff.mpr ⟨rfl, Bool.or_false _⟩) (fun _ _ => ext_iff.mpr ⟨rfl, Bool.false_or _⟩)
    fun _ _ _ => ext_iff.mpr ⟨rfl, Bool.or_assoc _ _ _⟩

/-! ## What a whole list reads -/

theorem value_mapM (f : γ → Tracked α) (cs : List γ) : (cs.mapM f).value = cs.map fun c => (f c).value := by
  induction cs with
  | nil => rfl
  | cons c cs ih =>
    rw [List.mapM_cons, value_bind, value_bind, ih]
    rfl

/-! ## Two runs -/

/-- The values are the same unless one of the runs has marked its own. -/
def Agrees (x y : Tracked α) : Prop := x.marked = false → y.marked = false → x.value = y.value

theorem agrees_of_eq {x y : Tracked α} (h : x.value = y.value) : Agrees x y := fun _ _ => h

theorem agrees_of_marked {x y : Tracked α} (h : x.marked = true ∨ y.marked = true) : Agrees x y := by
  intro hx hy
  rw [hx, hy] at h
  simp at h

theorem Agrees.symm {x y : Tracked α} (h : Agrees x y) : Agrees y x := fun hy hx => (h hx hy).symm

theorem Agrees.bind {x y : Tracked α} {f g : α → Tracked β} (h : Agrees x y) (hfg : ∀ a, Agrees (f a) (g a)) :
    Agrees (x >>= f) (y >>= g) := by
  intro hx hy
  rw [marked_bind, Bool.or_eq_false_iff] at hx hy
  have hvalue := h hx.1 hy.1
  rw [value_bind, value_bind, ← hvalue]
  rw [← hvalue] at hy
  exact hfg x.value hx.2 hy.2

theorem agrees_mapM {f g : γ → Tracked α} {cs : List γ} (h : ∀ c ∈ cs, Agrees (f c) (g c)) : Agrees (cs.mapM f) (cs.mapM g) := by
  induction cs with
  | nil => exact agrees_of_eq rfl
  | cons c cs ih =>
    rw [List.mapM_cons, List.mapM_cons]
    have hrest := ih fun d hd => h d (List.mem_cons_of_mem c hd)
    exact (h c List.mem_cons_self).bind fun a => hrest.bind fun _ => agrees_of_eq rfl

end Tracked

end Veryfront.Lib
