import Veryfront.Lib.Tracked

/-!
# Replacing what a pattern captures

A pattern is tried at every place of a list from left to right. Where it matches, what it captures is replaced and the
search goes on behind the match, so that nothing is replaced in what was put in.
-/

namespace Veryfront.Lib

universe u v

variable {α : Type u} {β : Type v}

/-- A pattern at the start of a list: what it captures there, and what follows. -/
structure Capture (α : Type u) (β : Type v) where
  find : List α → Option (β × List α)
  cuts : ∀ {t captured rest}, find t = some (captured, rest) → ∃ mark, mark ≠ [] ∧ t = mark ++ rest

namespace Capture

variable (capture : Capture α β)

/-- The elements that stay and the captures that are replaced, found in `fuel` steps. -/
def partsIn : Nat → List α → List (α ⊕ β)
  | 0, _ => []
  | _, [] => []
  | fuel + 1, a :: t =>
    match capture.find (a :: t) with
    | some (captured, rest) => .inr captured :: partsIn fuel rest
    | none => .inl a :: partsIn fuel t

def parts (t : List α) : List (α ⊕ β) := capture.partsIn t.length t

def replaceAll {m : Type u → Type u} [Monad m] (substitute : β → m (List α)) (t : List α) : m (List α) := do
  let pieces ← (capture.parts t).mapM (Sum.elim (fun a => pure [a]) substitute)
  return pieces.flatten

/-! ## Parts -/

variable {t : List α} {captured : β}

theorem suffix {rest : List α} (h : capture.find t = some (captured, rest)) : rest <:+ t := by
  obtain ⟨mark, -, rfl⟩ := capture.cuts h
  exact List.suffix_append mark rest

theorem shorter {rest : List α} (h : capture.find t = some (captured, rest)) : rest.length < t.length := by
  obtain ⟨mark, hmark, rfl⟩ := capture.cuts h
  have hpos := List.length_pos_iff.mpr hmark
  rw [List.length_append]
  omega

theorem partsIn_eq_parts {fuel : Nat} (h : t.length ≤ fuel) : capture.partsIn fuel t = capture.parts t := by
  have key : ∀ n m (t : List α), t.length ≤ n → t.length ≤ m → capture.partsIn n t = capture.partsIn m t := by
    intro n
    induction n with
    | zero =>
      intro m t hn _
      obtain rfl := List.length_eq_zero_iff.mp (Nat.le_zero.mp hn)
      cases m <;> rfl
    | succ n ih =>
      intro m t hn hm
      cases t with
      | nil => cases m <;> rfl
      | cons a t =>
        cases m with
        | zero => cases hm
        | succ m =>
          simp only [List.length_cons, Nat.add_le_add_iff_right] at hn hm
          unfold partsIn
          split
          · rename_i captured rest hfind
            have hlt := capture.shorter hfind
            rw [List.length_cons] at hlt
            rw [ih m rest (by omega) (by omega)]
          · rw [ih m t hn hm]
  exact key fuel t.length t h (Nat.le_refl _)

@[simp] theorem parts_nil : capture.parts [] = [] := rfl

theorem parts_of_find {rest : List α} (h : capture.find t = some (captured, rest)) :
    capture.parts t = .inr captured :: capture.parts rest := by
  have hlt := capture.shorter h
  cases t with
  | nil => cases hlt
  | cons a t =>
    rw [List.length_cons] at hlt
    rw [parts, List.length_cons, partsIn, h]
    exact congrArg _ (capture.partsIn_eq_parts (Nat.le_of_lt_succ hlt))

theorem parts_cons {a : α} (h : capture.find (a :: t) = none) : capture.parts (a :: t) = .inl a :: capture.parts t := by
  rw [parts, List.length_cons, partsIn, h]
  rfl

/-- What holds of a list if it does behind the first place, and behind every match there, always holds. -/
theorem parts_induction {P : List α → Prop} (nil : P [])
    (found : ∀ t captured rest, capture.find t = some (captured, rest) → P rest → P t)
    (other : ∀ a t, capture.find (a :: t) = none → P t → P (a :: t)) (t : List α) : P t := by
  match t with
  | [] => exact nil
  | a :: t =>
    cases hfind : capture.find (a :: t) with
    | some found' =>
      obtain ⟨captured, rest⟩ := found'
      have hlt := capture.shorter hfind
      exact found _ captured rest hfind (parts_induction nil found other rest)
    | none => exact other a t hfind (parts_induction nil found other t)
termination_by t.length
decreasing_by
  · exact Nat.lt_succ_self t.length
  · exact hlt

theorem mem_of_inl_mem_parts {a : α} (h : .inl a ∈ capture.parts t) : a ∈ t := by
  induction t using capture.parts_induction with
  | nil => cases h
  | found t captured rest hfind ih =>
    rw [capture.parts_of_find hfind, List.mem_cons] at h
    exact (capture.suffix hfind).subset (ih (h.resolve_left nofun))
  | other b t hfind ih =>
    rw [capture.parts_cons hfind, List.mem_cons] at h
    exact List.mem_cons.mpr (h.imp Sum.inl.inj ih)

theorem find_of_inr_mem_parts (h : .inr captured ∈ capture.parts t) :
    ∃ s rest, capture.find s = some (captured, rest) := by
  induction t using capture.parts_induction with
  | nil => cases h
  | found t captured' rest hfind ih =>
    rw [capture.parts_of_find hfind, List.mem_cons] at h
    rcases h with h | h
    · exact ⟨t, rest, by rw [hfind, Sum.inr.inj h]⟩
    · exact ih h
  | other b t hfind ih =>
    rw [capture.parts_cons hfind, List.mem_cons] at h
    exact ih (h.resolve_left nofun)

theorem parts_of_none (h : ∀ s, s <:+ t → capture.find s = none) : capture.parts t = t.map .inl := by
  induction t with
  | nil => rfl
  | cons a t ih =>
    rw [capture.parts_cons (h _ List.suffix_rfl), ih fun s hs => h s (hs.trans (List.suffix_cons a t)), List.map_cons]

/-! ## Two runs -/

variable {substitute substitute' : β → Tracked (List α)}

theorem replaceAll_agrees
    (h : ∀ captured, .inr captured ∈ capture.parts t → (substitute captured).Agrees (substitute' captured)) :
    (capture.replaceAll substitute t).Agrees (capture.replaceAll substitute' t) := by
  refine Tracked.Agrees.bind (Tracked.agrees_mapM fun part hpart => ?_) fun _ => Tracked.agrees_of_eq rfl
  cases part with
  | inl a => exact Tracked.agrees_of_eq rfl
  | inr captured => exact h captured hpart

theorem forall_mem_replaceAll {P : α → Prop} (h : ∀ a ∈ t, P a)
    (hsubstitute : ∀ captured, ∀ a ∈ (substitute captured).value, P a) : ∀ a ∈ (capture.replaceAll substitute t).value, P a := by
  intro a ha
  simp only [replaceAll, Tracked.value_bind, Tracked.value_pure, Tracked.value_mapM, List.mem_flatten, List.mem_map] at ha
  obtain ⟨_, ⟨part, hpart, rfl⟩, ha⟩ := ha
  cases part with
  | inl b =>
    rw [Sum.elim_inl, Tracked.value_pure, List.mem_singleton] at ha
    exact ha ▸ h b (capture.mem_of_inl_mem_parts hpart)
  | inr captured => exact hsubstitute captured a ha

theorem replaceAll_of_none (h : ∀ s, s <:+ t → capture.find s = none) :
    capture.replaceAll substitute t = pure t := by
  have hpieces : (t.map .inl).mapM (Sum.elim (fun a => pure [a]) substitute) = pure (t.map fun a => [a]) := by
    rw [List.mapM_map]
    exact List.mapM_pure
  rw [replaceAll, capture.parts_of_none h, hpieces, pure_bind, ← List.flatMap_def, List.flatMap_singleton']

theorem replaceAll_of_whole (h : capture.find t = some (captured, [])) :
    capture.replaceAll substitute t = substitute captured := by
  rw [replaceAll, capture.parts_of_find h, parts_nil]
  simp

end Capture

end Veryfront.Lib
