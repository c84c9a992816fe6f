import Mathlib.Algebra.BigOperators.Pi
import Veryfront.Config.SnapshotWalk

/-!
# The data of a snapshot

Two values are alike if they differ in the order of keys and in the identity of objects only. They have one canonical
form, which is alike them, and they cost the same but for their objects.
-/

namespace Veryfront.Config.Snapshots

open Lib

variable {ρ σ : Type} {R : ρ → σ → Prop}

/-- `R` relates the objects. A record may have its keys in another order. -/
inductive Value.Alike (R : ρ → σ → Prop) : Value ρ → Value σ → Prop
  | null : Alike R .null .null
  | boolean (b : Bool) : Alike R (.boolean b) (.boolean b)
  | number (n : Number) : Alike R (.number n) (.number n)
  | string (text : JsString) : Alike R (.string text) (.string text)
  | array {ref : ρ} {ref' : σ} {length : Nat} {items : Fin length → Value ρ} {items' : Fin length → Value σ} (href : R ref ref')
    (hitems : ∀ i, Alike R (items i) (items' i)) : Alike R (.array ref length items) (.array ref' length items')
  | record {ref : ρ} {ref' : σ} {keys keys' : List JsString} {distinct : keys.Nodup} {distinct' : keys'.Nodup}
    {values : Fin keys.length → Value ρ} {values' : Fin keys'.length → Value σ} (href : R ref ref') (hkeys : keys'.Perm keys)
    (hvalues : ∀ i, Alike R (values (place hkeys i)) (values' i)) :
    Alike R (.record ref keys distinct values) (.record ref' keys' distinct' values')

abbrev SameJson : Value ρ → Value σ → Prop := Value.Alike fun _ _ => True

/-- The data without the identity of objects. -/
def Value.unlabelled : Value ρ → ConfigSnapshotValue
  | .null => .null
  | .boolean b => .boolean b
  | .number n => .number n
  | .string s => .string s
  | .array _ length items => .array () length fun i => (items i).unlabelled
  | .record _ keys distinct values => .record () keys distinct fun i => (values i).unlabelled

theorem sameJson_unlabelled (value : Value ρ) : SameJson value value.unlabelled := by
  induction value with
  | null => exact .null
  | boolean b => exact .boolean b
  | number n => exact .number n
  | string text => exact .string text
  | array ref length items ih => exact .array trivial ih
  | record ref keys distinct values ih =>
    refine .record trivial (List.Perm.refl keys) fun i => ?_
    have hplace : i = place (List.Perm.refl keys) i := eq_place _ distinct rfl
    rw [← hplace]
    exact ih i

theorem sameJson_canonical (value : Value ρ) : SameJson value (canonical value) := by
  induction value with
  | null => exact .null
  | boolean b => exact .boolean b
  | number n => exact .number n
  | string text => exact .string text
  | array ref length items ih => exact .array trivial ih
  | record ref keys distinct values ih => exact .record trivial (sortKeys_perm keys) fun i => ih _

/-! ## One canonical form -/

theorem record_congr {keys keys' : List JsString} (h : keys = keys') {distinct : keys.Nodup} {distinct' : keys'.Nodup}
    {values : Fin keys.length → ConfigSnapshotValue} {values' : Fin keys'.length → ConfigSnapshotValue}
    (hvalues : ∀ i : Fin keys'.length, values ⟨i, h ▸ i.isLt⟩ = values' i) :
    Value.record () keys distinct values = Value.record () keys' distinct' values' := by
  subst h
  rw [show values = values' from funext hvalues]

variable {value : Value ρ}

theorem canonical_eq {value' : Value σ} (h : value.Alike R value') : canonical value = canonical value' := by
  induction h with
  | null => rfl
  | boolean b => rfl
  | number n => rfl
  | string text => rfl
  | array href hitems ih =>
    rw [canonical, canonical]
    exact congrArg _ (funext ih)
  | @record ref ref' keys keys' distinct distinct' values values' href hkeys hvalues ih =>
    rw [canonical, canonical]
    have hsorted := sortKeys_eq_of_perm hkeys.symm
    refine record_congr hsorted fun i => ?_
    rw [← ih]
    refine congrArg (fun j => canonical (values j)) (eq_place hkeys distinct ?_)
    exact (getElem_place _ _).trans ((List.get_of_eq hsorted _).trans (getElem_place _ _).symm)

/-! ## Acceptance -/

theorem admissible_iff {value' : Value σ} (h : value.Alike R value') (remaining : Nat) :
    Admissible remaining value ↔ Admissible remaining value' := by
  induction h generalizing remaining with
  | null => cases remaining <;> rfl
  | boolean b => cases remaining <;> rfl
  | number n => cases remaining <;> rfl
  | string text => cases remaining <;> rfl
  | array href hitems ih =>
    cases remaining with
    | zero => rfl
    | succ remaining => simp only [Admissible, ih]
  | @record ref ref' keys keys' distinct distinct' values values' href hkeys hvalues ih =>
    cases remaining with
    | zero => rfl
    | succ remaining =>
      simp only [Admissible, hkeys.length_eq, hkeys.mem_iff, (place_bijective hkeys distinct).surjective.forall, ih]

theorem cost_snd_eq {value' : Value σ} (h : value.Alike R value') : (cost value).2 = (cost value').2 := by
  induction h with
  | null => rfl
  | boolean b => rfl
  | number n => rfl
  | string text => rfl
  | array href hitems ih => simp only [cost, Prod.snd_add, Prod.snd_sum, ih]
  | @record ref ref' keys keys' distinct distinct' values values' href hkeys hvalues ih =>
    have hplaces := (place_bijective hkeys distinct).sum_comp fun i => (cost (values i)).2
    simp only [cost, Prod.snd_add, Prod.snd_sum, ← hplaces, ih, hkeys.length_eq, (hkeys.map keyBytes).sum_eq]

theorem cost_fst_eq {value' : Value ρ} (h : value.Alike Eq value') : (cost value).1 = (cost value').1 := by
  induction h with
  | null => rfl
  | boolean b => rfl
  | number n => rfl
  | string text => rfl
  | array href hitems ih => simp only [cost, Prod.fst_add, Prod.fst_sum, ih, href]
  | @record ref ref' keys keys' distinct distinct' values values' href hkeys hvalues ih =>
    have hplaces := (place_bijective hkeys distinct).sum_comp fun i => (cost (values i)).1
    simp only [cost, Prod.fst_add, Prod.fst_sum, ← hplaces, ih, href]

end Veryfront.Config.Snapshots
