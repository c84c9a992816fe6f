import Mathlib.Data.List.Induction
import Mathlib.Order.Lattice

/-!
# Steps that need fuel

A step is given fuel for its loops and fails when the fuel is used up. More fuel never changes a result. A run of such
steps ends, with some fuel, exactly when every step ends from where the run has come to.
-/

namespace Veryfront.Lib

variable {σ α : Type*}

/-- More fuel gives the same result. -/
def FuelMonotone (step : Nat → σ → α → Option σ) : Prop :=
  ∀ fuel fuel' s a t, fuel ≤ fuel' → step fuel s a = some t → step fuel' s a = some t

def Ends (step : Nat → σ → α → Option σ) (s : σ) (a : α) : Prop := ∃ fuel t, step fuel s a = some t

variable {step : Nat → σ → α → Option σ}

variable {inputs : List α}

theorem FuelMonotone.foldlM (hmono : FuelMonotone step) {fuel fuel' : Nat} (hle : fuel ≤ fuel') {s t : σ}
    (h : inputs.foldlM (step fuel) s = some t) : inputs.foldlM (step fuel') s = some t := by
  induction inputs generalizing s with
  | nil => exact h
  | cons a inputs ih =>
    obtain ⟨mid, hstep, hrest⟩ := Option.bind_eq_some_iff.mp h
    rw [List.foldlM_cons, hmono _ _ _ _ _ hle hstep]
    exact ih hrest

theorem FuelMonotone.foldlM_unique (hmono : FuelMonotone step) {fuel fuel' : Nat} {s t t' : σ}
    (h : inputs.foldlM (step fuel) s = some t) (h' : inputs.foldlM (step fuel') s = some t') : t = t' :=
  Option.some.inj ((hmono.foldlM (Nat.le_max_left fuel fuel') h).symm.trans (hmono.foldlM (Nat.le_max_right fuel fuel') h'))

theorem foldlM_ends_iff (hmono : FuelMonotone step) {s : σ} :
    (∃ fuel t, inputs.foldlM (step fuel) s = some t) ↔
      ∀ before a after, inputs = before ++ a :: after → ∀ fuel mid, before.foldlM (step fuel) s = some mid →
        Ends step mid a := by
  constructor
  · rintro ⟨fuel, t, hrun⟩ before a after rfl fuel' mid hbefore
    rw [List.foldlM_append] at hrun
    obtain ⟨mid', hbefore', hrest⟩ := Option.bind_eq_some_iff.mp hrun
    obtain rfl := hmono.foldlM_unique hbefore hbefore'
    rw [List.foldlM_cons] at hrest
    obtain ⟨u, hstep, -⟩ := Option.bind_eq_some_iff.mp hrest
    exact ⟨fuel, u, hstep⟩
  · intro h
    induction inputs using List.reverseRecOn with
    | nil => exact ⟨0, s, rfl⟩
    | append_singleton inputs a ih =>
      obtain ⟨fuel, mid, hbefore⟩ := ih fun pre b post heq => h pre b (post ++ [a]) (by rw [heq]; simp)
      obtain ⟨fuel', t, hstep⟩ := h inputs a [] rfl fuel mid hbefore
      refine ⟨max fuel fuel', t, ?_⟩
      rw [List.foldlM_append, hmono.foldlM (Nat.le_max_left _ _) hbefore]
      show List.foldlM (step (max fuel fuel')) mid [a] = some t
      rw [List.foldlM_cons, hmono _ _ _ _ _ (Nat.le_max_right _ _) hstep]
      rfl

theorem foldlM_invariant {P : σ → Prop} (hstep : ∀ fuel s a t, P s → step fuel s a = some t → P t) {fuel : Nat} {s t : σ}
    (hs : P s) (h : inputs.foldlM (step fuel) s = some t) : P t := by
  induction inputs generalizing s with
  | nil => exact Option.some.inj h ▸ hs
  | cons a inputs ih =>
    obtain ⟨mid, hfirst, hrest⟩ := Option.bind_eq_some_iff.mp h
    exact ih (hstep _ _ _ _ hs hfirst) hrest

end Veryfront.Lib
