import Mathlib.Algebra.BigOperators.Fin
import Mathlib.Data.Fin.Tuple.Basic

/-!
# Budgets

A state is charged piece by piece by a computation that fails when there is no room left. It succeeds if there is room for
the sum of what it charges, in whatever pieces.
-/

namespace Veryfront.Lib

/-- A state that costs are charged to. -/
structure Purse (σ κ : Type) [AddMonoid κ] where
  charge : σ → κ → Option σ
  charge_zero : ∀ s, charge s 0 = some s
  charge_add : ∀ s c c', charge s (c + c') = (charge s c).bind (charge · c')

section Spends

variable {σ κ ε α β : Type}

theorem run_bind_eq_ok {m : StateT σ (Except ε) α} {f : α → StateT σ (Except ε) β} {s s' : σ} {b : β} :
    (m >>= f).run s = .ok (b, s') ↔ ∃ a between, m.run s = .ok (a, between) ∧ (f a).run between = .ok (b, s') := by
  rw [StateT.run_bind]
  cases hm : m.run s with
  | error e =>
    constructor
    · intro h
      cases h
    · rintro ⟨a, between, h, -⟩
      cases h
  | ok result =>
    constructor
    · exact fun h => ⟨result.1, result.2, rfl, h⟩
    · rintro ⟨a, between, h, hf⟩
      obtain rfl := Except.ok.inj h
      exact hf

variable [AddCommMonoid κ] (purse : Purse σ κ)

/-- If the condition holds, the computation gives the result as far as there is room for the cost, and else it fails. -/
def Spends (m : StateT σ (Except ε) α) (condition : Prop) (result : α) (cost : κ) : Prop :=
  ∀ s a s', m.run s = .ok (a, s') ↔ condition ∧ a = result ∧ purse.charge s cost = some s'

variable {purse} {m : StateT σ (Except ε) α} {f : α → StateT σ (Except ε) β} {p q : Prop} {a : α} {b : β} {c d : κ}

theorem Spends.congr (h : Spends purse m p a c) (hcondition : p ↔ q) (hcost : c = d) : Spends purse m q a d := by
  intro s result s'
  rw [h s result s', hcondition, hcost]

theorem Spends.pure (a : α) : Spends purse (Pure.pure a : StateT σ (Except ε) α) True a 0 := by
  intro s result s'
  rw [StateT.run_pure, purse.charge_zero, true_and]
  constructor
  · intro h
    obtain ⟨rfl, rfl⟩ := Prod.mk.inj (Except.ok.inj h)
    exact ⟨rfl, rfl⟩
  · rintro ⟨rfl, h⟩
    rw [Option.some.inj h]
    rfl

theorem Spends.throw (e : ε) (a : α) (c : κ) : Spends purse (throw e : StateT σ (Except ε) α) False a c := by
  intro s result s'
  constructor
  · intro h
    cases h
  · rintro ⟨h, -⟩
    exact h.elim

theorem Spends.bind (hm : Spends purse m p a c) (hf : p → Spends purse (f a) q b d) :
    Spends purse (m >>= f) (p ∧ q) b (c + d) := by
  intro s result s'
  rw [run_bind_eq_ok, purse.charge_add, Option.bind_eq_some_iff]
  constructor
  · rintro ⟨first, between, hfirst, hsecond⟩
    obtain ⟨hp, rfl, hbetween⟩ := (hm s first between).mp hfirst
    obtain ⟨hq, hresult, hs'⟩ := (hf hp between result s').mp hsecond
    exact ⟨⟨hp, hq⟩, hresult, between, hbetween, hs'⟩
  · rintro ⟨⟨hp, hq⟩, hresult, between, hbetween, hs'⟩
    exact ⟨a, between, (hm s a between).mpr ⟨hp, rfl, hbetween⟩, (hf hp between result s').mpr ⟨hq, hresult, hs'⟩⟩

theorem Spends.guard [Decidable p] {first : StateT σ (Except ε) α} {next : α → StateT σ (Except ε) β} {rest : StateT σ (Except ε) β}
    (hfirst : ∀ s result, first.run s ≠ .ok result) (hrest : ¬ p → Spends purse rest q b c) :
    Spends purse (if p then first >>= next else rest) (¬ p ∧ q) b c := by
  intro s result s'
  by_cases h : p
  · rw [if_pos h, run_bind_eq_ok]
    constructor
    · rintro ⟨a, between, ha, -⟩
      exact absurd ha (hfirst s (a, between))
    · exact fun hresult => absurd h hresult.1.1
  · rw [if_neg h, hrest h s result s', and_iff_right h]

theorem Spends.forM {ι : Type} {l : List ι} {f : ι → StateT σ (Except ε) Unit} {p : ι → Prop} {c : ι → κ}
    (h : ∀ x ∈ l, Spends purse (f x) (p x) () (c x)) : Spends purse (l.forM f) (∀ x ∈ l, p x) () (l.map c).sum := by
  induction l with
  | nil => exact (Spends.pure ()).congr (by simp) rfl
  | cons x l ih =>
    have hrest := ih fun y hy => h y (List.mem_cons_of_mem x hy)
    exact ((h x List.mem_cons_self).bind fun _ => hrest).congr (by simp) (by simp)

/-- One computation after the other. -/
def forFamily : (n : Nat) → (Fin n → StateT σ (Except ε) α) → StateT σ (Except ε) (Fin n → α)
  | 0, _ => Pure.pure Fin.elim0
  | n + 1, f => do
    let first ← f 0
    let rest ← forFamily n fun i => f i.succ
    return Fin.cons first rest

theorem Spends.family {n : Nat} {f : Fin n → StateT σ (Except ε) α} {p : Fin n → Prop} {r : Fin n → α} {c : Fin n → κ}
    (h : ∀ i, Spends purse (f i) (p i) (r i) (c i)) : Spends purse (forFamily n f) (∀ i, p i) r (∑ i, c i) := by
  induction n with
  | zero =>
    have hempty : r = Fin.elim0 := funext fun i => i.elim0
    rw [hempty]
    exact (Spends.pure _).congr (by simp) (by simp)
  | succ n ih =>
    have hrest := ih fun i => h i.succ
    have hwhole : Spends purse (forFamily (n + 1) f) (p 0 ∧ (∀ i : Fin n, p i.succ) ∧ True) (Fin.cons (r 0) fun i => r i.succ)
        (c 0 + ((∑ i : Fin n, c i.succ) + 0)) :=
      (h 0).bind fun _ => hrest.bind fun _ => Spends.pure _
    have hresult : (Fin.cons (r 0) fun i => r i.succ : Fin (n + 1) → α) = r := Fin.cons_self_tail r
    rw [hresult] at hwhole
    exact hwhole.congr (by rw [and_true, Fin.forall_fin_succ]) (by rw [add_zero, Fin.sum_univ_succ])

end Spends

end Veryfront.Lib
