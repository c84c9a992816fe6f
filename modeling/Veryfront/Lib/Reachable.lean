import Mathlib.Logic.Relation
import Mathlib.Data.List.Basic

/-!
# Collecting what can be reached

A depth-first walk that adds each vertex to a list when it first meets it. The recursion is bounded by
fuel; as every call that goes on adds a vertex, more fuel than there are vertices is always enough. Then
the walk from a vertex collects exactly what can be reached from it.
-/

namespace Veryfront.Lib

variable {κ : Type*} [DecidableEq κ]

def collect (adj : κ → List κ) : Nat → List κ → κ → List κ
  | 0, visited, _ => visited
  | fuel + 1, visited, v =>
    if v ∈ visited then visited else (adj v).foldl (collect adj fuel) (visited ++ [v])

def Reaches (adj : κ → List κ) : κ → κ → Prop := Relation.ReflTransGen fun u v => v ∈ adj u

variable {adj : κ → List κ}

/-! ## What is collected can be reached -/

theorem foldl_collect_sound {P : κ → Prop} {fuel : Nat}
    (ih : ∀ visited v, P v → (∀ x ∈ visited, P x) → ∀ x ∈ collect adj fuel visited v, P x) (vs : List κ) :
    ∀ visited, (∀ v ∈ vs, P v) → (∀ x ∈ visited, P x) → ∀ x ∈ vs.foldl (collect adj fuel) visited, P x := by
  induction vs with
  | nil => exact fun _ _ h => h
  | cons v vs ihvs =>
    intro visited hvs h
    exact ihvs _ (fun u hu => hvs u (List.mem_cons_of_mem _ hu)) (ih _ _ (hvs v List.mem_cons_self) h)

theorem collect_sound {P : κ → Prop} (hP : ∀ u v, P u → v ∈ adj u → P v) (fuel : Nat) :
    ∀ visited v, P v → (∀ x ∈ visited, P x) → ∀ x ∈ collect adj fuel visited v, P x := by
  induction fuel with
  | zero => exact fun _ _ _ h => h
  | succ fuel ih =>
    intro visited v hv h
    rw [collect]
    split
    · exact h
    · refine foldl_collect_sound ih _ _ (fun u hu => hP v u hv hu) fun x hx => ?_
      rcases List.mem_append.mp hx with hx | hx
      · exact h x hx
      · exact List.mem_singleton.mp hx ▸ hv

/-! ## No vertex is collected twice -/

theorem collect_nodup (fuel : Nat) : ∀ (visited : List κ) (v : κ), visited.Nodup → (collect adj fuel visited v).Nodup := by
  induction fuel with
  | zero => exact fun _ _ h => h
  | succ fuel ih =>
    have hfold : ∀ (vs visited : List κ), visited.Nodup → (vs.foldl (collect adj fuel) visited).Nodup := by
      intro vs
      induction vs with
      | nil => exact fun _ h => h
      | cons v vs ihvs => exact fun visited h => ihvs _ (ih visited v h)
    intro visited v h
    rw [collect]
    split
    · exact h
    · rename_i hv
      exact hfold _ _ (List.nodup_append.mpr ⟨h, by simp, fun x hx y hy => by
        rw [List.mem_singleton.mp hy]
        exact fun heq => hv (heq ▸ hx)⟩)

/-! ## Enough fuel -/

def uncollected (ks visited : List κ) : Nat := ks.countP (· ∉ visited)

theorem uncollected_mono {ks visited visited' : List κ} (h : visited ⊆ visited') :
    uncollected ks visited' ≤ uncollected ks visited := by
  refine List.countP_mono_left fun v _ hv => ?_
  simp only [decide_eq_true_eq] at hv ⊢
  exact fun hs => hv (h hs)

theorem uncollected_lt {ks visited : List κ} {v : κ} (hk : v ∈ ks) (hv : v ∉ visited) :
    uncollected ks (visited ++ [v]) < uncollected ks visited := by
  induction ks with
  | nil => cases hk
  | cons k ks ih =>
    have hmono : uncollected ks (visited ++ [v]) ≤ uncollected ks visited :=
      uncollected_mono (List.subset_append_left visited [v])
    simp only [uncollected, List.countP_cons] at hmono ih ⊢
    by_cases hkv : k = v
    · subst hkv
      have hnew : decide (k ∉ visited ++ [k]) = false := by simp
      have hold : decide (k ∉ visited) = true := by simp [hv]
      rw [hnew, hold]
      simp only [Bool.false_eq_true, if_false, if_true]
      omega
    · have hlt := ih ((List.mem_cons.mp hk).resolve_left (Ne.symm hkv))
      have hsame : decide (k ∉ visited ++ [v]) = decide (k ∉ visited) := by simp [hkv]
      rw [hsame]
      omega

theorem subset_collect (fuel : Nat) : ∀ (visited : List κ) (v : κ), visited ⊆ collect adj fuel visited v := by
  induction fuel with
  | zero => exact fun _ _ => List.Subset.refl _
  | succ fuel ih =>
    have hfold : ∀ (vs visited : List κ), visited ⊆ vs.foldl (collect adj fuel) visited := by
      intro vs
      induction vs with
      | nil => exact fun _ => List.Subset.refl _
      | cons v vs ihvs => exact fun visited => List.Subset.trans (ih visited v) (ihvs _)
    intro visited v
    rw [collect]
    split
    · exact List.Subset.refl _
    · exact List.Subset.trans (List.subset_append_left visited [v]) (hfold _ _)

theorem subset_foldl_collect (fuel : Nat) (vs : List κ) (visited : List κ) :
    visited ⊆ vs.foldl (collect adj fuel) visited := by
  induction vs generalizing visited with
  | nil => exact List.Subset.refl _
  | cons v vs ih => exact List.Subset.trans (subset_collect fuel visited v) (ih _)

/-- What a call adds, and `v`, has its successors in the result. -/
def Closes (adj : κ → List κ) (visited result : List κ) : Prop := ∀ x ∈ result, x ∉ visited → adj x ⊆ result

theorem collect_complete {ks : List κ} (hks : ∀ v ∈ ks, adj v ⊆ ks) (fuel : Nat) :
    ∀ (visited : List κ) (v : κ), v ∈ ks → uncollected ks visited < fuel →
      v ∈ collect adj fuel visited v ∧ Closes adj visited (collect adj fuel visited v) := by
  induction fuel with
  | zero => exact fun _ _ _ h => absurd h (Nat.not_lt_zero _)
  | succ fuel ih =>
    have hfold : ∀ (vs visited : List κ), vs ⊆ ks → uncollected ks visited < fuel →
        vs ⊆ vs.foldl (collect adj fuel) visited ∧ Closes adj visited (vs.foldl (collect adj fuel) visited) := by
      intro vs
      induction vs with
      | nil => exact fun visited _ _ => ⟨List.nil_subset _, fun x hx hn => absurd hx hn⟩
      | cons v vs ihvs =>
        intro visited hvs hfuel
        obtain ⟨hv, hcl⟩ := ih visited v (hvs List.mem_cons_self) hfuel
        obtain ⟨hsub, hcl'⟩ := ihvs (collect adj fuel visited v) (fun x hx => hvs (List.mem_cons_of_mem _ hx))
          (Nat.lt_of_le_of_lt (uncollected_mono (subset_collect fuel visited v)) hfuel)
        refine ⟨List.cons_subset.mpr ⟨subset_foldl_collect fuel vs _ hv, hsub⟩, fun x hx hn => ?_⟩
        by_cases hmid : x ∈ collect adj fuel visited v
        · exact List.Subset.trans (hcl x hmid hn) (subset_foldl_collect fuel vs _)
        · exact hcl' x hx hmid
    intro visited v hk hfuel
    rw [collect]
    split
    · rename_i hv
      exact ⟨hv, fun x hx hn => absurd hx hn⟩
    · rename_i hv
      have hlt := uncollected_lt hk hv
      obtain ⟨hsub, hcl⟩ := hfold (adj v) (visited ++ [v]) (hks v hk) (by omega)
      have hmem : v ∈ (adj v).foldl (collect adj fuel) (visited ++ [v]) :=
        subset_foldl_collect fuel _ _ (List.mem_append_right _ List.mem_cons_self)
      refine ⟨hmem, fun x hx hn => ?_⟩
      by_cases hxv : x = v
      · exact hxv ▸ hsub
      · refine hcl x hx fun hx' => ?_
        rcases List.mem_append.mp hx' with hx' | hx'
        · exact hn hx'
        · exact hxv (List.mem_singleton.mp hx')

theorem mem_collect (ks : List κ) (hks : ∀ v ∈ ks, adj v ⊆ ks) {fuel : Nat} (hfuel : ks.length < fuel) {v x : κ}
    (hv : v ∈ ks) : x ∈ collect adj fuel [] v ↔ Reaches adj v x := by
  constructor
  · exact collect_sound (fun u w hu hw => hu.tail hw) fuel [] v .refl (fun _ h => (nomatch h)) x
  · intro h
    obtain ⟨hmem, hcl⟩ := collect_complete hks fuel [] v hv (Nat.lt_of_le_of_lt List.countP_le_length hfuel)
    induction h with
    | refl => exact hmem
    | tail _ hw ih => exact hcl _ ih (List.not_mem_nil) hw

end Veryfront.Lib
