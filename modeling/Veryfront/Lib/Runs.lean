import Mathlib.Tactic.TypeStar

/-!
# Runs of a labelled transition relation

A run is a finite sequence of steps, each with its label. What holds at the start and is kept by
every step holds at the end, and what one step establishes and the later ones keep holds after it.
-/

namespace Veryfront.Lib

variable {σ ε : Type*}

/-- The steps taken from `s₀`, oldest first, and the state after them. -/
inductive Run (step : σ → ε → σ → Prop) (s₀ : σ) : List ε → σ → Prop
  | nil : Run step s₀ [] s₀
  | snoc {es : List ε} {s : σ} {e : ε} {s' : σ} :
      Run step s₀ es s → step s e s' → Run step s₀ (es ++ [e]) s'

namespace Run

variable {step : σ → ε → σ → Prop} {s₀ : σ}

variable {es : List ε}

theorem invariant (Inv : σ → Prop) (h0 : Inv s₀) (hstep : ∀ s e s', Inv s → step s e s' → Inv s') {s : σ} (h : Run step s₀ es s) :
    Inv s := by
  induction h with
  | nil => exact h0
  | snoc _ hs ih => exact hstep _ _ _ ih hs

/-- Once a step with a marked label establishes `Q`, and every step keeps `Q`, it holds to the end. -/
theorem after (Marked : ε → Prop) (Inv Q : σ → Prop) (h0 : Inv s₀)
    (hinv : ∀ s e s', Inv s → step s e s' → Inv s')
    (hest : ∀ s e s', Inv s → step s e s' → Marked e → Q s')
    (hkeep : ∀ s e s', Inv s → Q s → step s e s' → Q s') {s : σ} (h : Run step s₀ es s) (he : ∃ e ∈ es, Marked e) : Q s := by
  induction h with
  | nil => simp at he
  | @snoc es s e s' hr hs ih =>
    have hi : Inv s := invariant Inv h0 hinv hr
    obtain ⟨x, hx, hm⟩ := he
    rcases List.mem_append.mp hx with hx | hx
    · exact hkeep _ _ _ hi (ih ⟨x, hx, hm⟩) hs
    · rw [List.mem_singleton] at hx
      exact hest _ _ _ hi hs (hx ▸ hm)

theorem append {fs : List ε} {s t : σ} (h : Run step s₀ es s) (h' : Run step s fs t) :
    Run step s₀ (es ++ fs) t := by
  induction h' with
  | nil => simpa using h
  | snoc _ hs ih => rw [← List.append_assoc]; exact .snoc ih hs

theorem cons {s t u : σ} {e : ε} (hs : step s e t) (h : Run step t es u) :
    Run step s (e :: es) u :=
  append (.snoc .nil hs) h

theorem of_foldlM {f : σ → ε → Option σ} {s t : σ} (h : es.foldlM f s = some t) :
    Run (fun s e s' => f s e = some s') s es t := by
  induction es generalizing s with
  | nil =>
    cases h
    exact .nil
  | cons e es ih =>
    rw [List.foldlM_cons] at h
    obtain ⟨u, hu, hrest⟩ := Option.bind_eq_some_iff.mp h
    exact cons hu (ih hrest)

end Run

end Veryfront.Lib
