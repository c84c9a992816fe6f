import Mathlib.Data.List.Nodup
import Mathlib.Data.List.Perm.Basic

/-!
# Updates of record lists

Three updates that record stores make on a list: change the first record that matches, insert a
record before the first that it precedes, and evict the oldest records that may be dropped.
-/

namespace Veryfront.Lib

variable {α κ : Type*}

/-! ## Changing the first match -/

def modifyFirst (p : α → Bool) (f : α → α) : List α → List α
  | [] => []
  | a :: l => if p a then f a :: l else a :: modifyFirst p f l

variable {p : α → Bool}

theorem map_modifyFirst {g : α → κ} {f : α → α} (h : ∀ a, p a → g (f a) = g a) (l : List α) :
    (modifyFirst p f l).map g = l.map g := by
  induction l with
  | nil => rfl
  | cons a l ih =>
    rw [modifyFirst]
    split
    · rename_i hp; simp [h a hp]
    · simp [ih]

variable {l : List α}

theorem modifyFirst_eq_self {f : α → α} (h : l.find? p = none) :
    modifyFirst p f l = l := by
  induction l with
  | nil => rfl
  | cons a l ih =>
    rw [List.find?_cons] at h
    split at h
    · cases h
    · rename_i hp
      rw [modifyFirst, hp, ih h]
      rfl

section Keyed

variable [DecidableEq κ] {key : α → κ}

theorem mem_modifyFirst_key (hl : (l.map key).Nodup) (k : κ) (f : α → α) (a : α) :
    a ∈ modifyFirst (fun b => key b = k) f l ↔ (a ∈ l ∧ key a ≠ k) ∨ ∃ b ∈ l, key b = k ∧ a = f b := by
  induction l with
  | nil => simp [modifyFirst]
  | cons b l ih =>
    simp only [List.map_cons, List.nodup_cons, List.mem_map, not_exists, not_and] at hl
    rw [modifyFirst]
    by_cases hb : key b = k
    · have hno : ∀ c ∈ l, key c ≠ k := fun c hc hck => hl.1 c hc (hck.trans hb.symm)
      simp only [hb, decide_true, if_true, List.mem_cons]
      constructor
      · rintro (rfl | ha)
        · exact .inr ⟨b, .inl rfl, hb, rfl⟩
        · exact .inl ⟨.inr ha, hno a ha⟩
      · rintro (⟨rfl | ha, hk⟩ | ⟨c, rfl | hc, hk, rfl⟩)
        · exact absurd hb hk
        · exact .inr ha
        · exact .inl rfl
        · exact absurd hk (hno c hc)
    · simp only [hb, decide_false, Bool.false_eq_true, if_false, List.mem_cons, ih hl.2]
      constructor
      · rintro (rfl | ⟨ha, hk⟩ | ⟨c, hc, hk, rfl⟩)
        · exact .inl ⟨.inl rfl, hb⟩
        · exact .inl ⟨.inr ha, hk⟩
        · exact .inr ⟨c, .inr hc, hk, rfl⟩
      · rintro (⟨rfl | ha, hk⟩ | ⟨c, rfl | hc, hk, rfl⟩)
        · exact .inl rfl
        · exact .inr (.inl ⟨ha, hk⟩)
        · exact absurd hk hb
        · exact .inr (.inr ⟨c, hc, hk, rfl⟩)

theorem countP_key_eq_one (hl : (l.map key).Nodup) {a : α} (ha : a ∈ l) :
    (l.countP fun b => key b = key a) = 1 := by
  have h : (l.map key).count (key a) = 1 := List.count_eq_one_of_mem hl (List.mem_map_of_mem ha)
  rw [List.count, List.countP_map] at h
  rw [← h]
  exact List.countP_congr fun b _ => by simp

end Keyed

/-! ## Counting -/

/-- Two predicates that differ at one element only, where the second one holds. -/
theorem countP_flip {q : α → Bool} {a : α} (hl : l.Nodup) (ha : a ∈ l)
    (hp : p a = false) (hq : q a = true) (h : ∀ b ∈ l, b ≠ a → q b = p b) :
    l.countP q = l.countP p + 1 := by
  induction l with
  | nil => exact absurd ha List.not_mem_nil
  | cons b l ih =>
    obtain ⟨hb, hl⟩ := List.nodup_cons.mp hl
    rw [List.countP_cons, List.countP_cons]
    rcases List.mem_cons.mp ha with rfl | ha
    · have hrest : l.countP q = l.countP p := List.countP_congr fun c hc => by
        rw [h c (List.mem_cons_of_mem _ hc) (fun e => hb (e ▸ hc))]
      simp [hp, hq, hrest]
    · have hne : b ≠ a := fun e => hb (e ▸ ha)
      rw [ih hl ha fun c hc => h c (List.mem_cons_of_mem _ hc), h b List.mem_cons_self hne]
      omega

/-! ## Taking the first match -/

theorem perm_cons_eraseP {a : α} (h : l.find? p = some a) :
    l.Perm (a :: l.eraseP p) := by
  obtain ⟨hp, as, bs, rfl, has⟩ := List.find?_eq_some_iff_append.mp h
  have hnone : ∀ b ∈ as, ¬ p b = true := fun b hb => by simpa using has b hb
  rw [List.eraseP_append_right _ hnone, List.eraseP_cons_of_pos hp]
  exact List.perm_middle

/-! ## Inserting in order -/

/-- `a` goes before the first record that `p` picks, or else to the end. -/
def insertBefore (p : α → Bool) (a : α) : List α → List α
  | [] => [a]
  | b :: l => if p b then a :: b :: l else b :: insertBefore p a l

theorem insertBefore_perm (p : α → Bool) (a : α) (l : List α) : (insertBefore p a l).Perm (a :: l) := by
  induction l with
  | nil => exact .refl _
  | cons b l ih =>
    rw [insertBefore]
    split
    · exact .refl _
    · exact (ih.cons b).trans (.swap a b l)

theorem pairwise_insertBefore {r : α → α → Prop} [IsTrans α r] {a : α}
    (hl : l.Pairwise r) (hp : ∀ b ∈ l, p b = true → r a b) (hn : ∀ b ∈ l, p b = false → r b a) :
    (insertBefore p a l).Pairwise r := by
  induction l with
  | nil => exact List.pairwise_singleton r a
  | cons b l ih =>
    rw [List.pairwise_cons] at hl
    rw [insertBefore]
    split
    · rename_i hb
      have hab : r a b := hp b List.mem_cons_self hb
      refine List.pairwise_cons.mpr ⟨?_, List.pairwise_cons.mpr hl⟩
      intro c hc
      rcases List.mem_cons.mp hc with rfl | hc
      · exact hab
      · exact Trans.trans hab (hl.1 c hc)
    · rename_i hb
      refine List.pairwise_cons.mpr ⟨?_, ih hl.2 (fun c hc => hp c (List.mem_cons_of_mem _ hc))
        fun c hc => hn c (List.mem_cons_of_mem _ hc)⟩
      intro c hc
      rcases List.mem_cons.mp ((insertBefore_perm p a l).subset hc) with rfl | hc
      · exact hn b List.mem_cons_self (by simpa using hb)
      · exact hl.1 c hc

/-! ## Evicting -/

/-- The list without the first `n` records that `final` allows to be dropped. -/
def evictOldest (final : α → Bool) : Nat → List α → List α
  | 0, l => l
  | _ + 1, [] => []
  | n + 1, a :: l => if final a then evictOldest final n l else a :: evictOldest final (n + 1) l

theorem evictOldest_sublist (final : α → Bool) (n : Nat) (l : List α) : (evictOldest final n l).Sublist l := by
  induction l generalizing n with
  | nil => cases n <;> exact .refl _
  | cons a l ih =>
    cases n with
    | zero => exact .refl _
    | succ n =>
      rw [evictOldest]
      split
      · exact (ih n).cons a
      · exact (ih (n + 1)).cons_cons a

theorem mem_evictOldest {final : α → Bool} {a : α} (n : Nat) (ha : a ∈ l) (hf : final a = false) :
    a ∈ evictOldest final n l := by
  induction l generalizing n with
  | nil => simp at ha
  | cons b l ih =>
    cases n with
    | zero => exact ha
    | succ n =>
      rw [evictOldest]
      rcases List.mem_cons.mp ha with rfl | ha
      · simp [hf]
      · split
        · exact ih n ha
        · exact List.mem_cons_of_mem _ (ih (n + 1) ha)

/-! ## Appending what is new -/

/-- Appends the elements of a list that are not there yet, in order. -/
def appendNew [DecidableEq α] (l : List α) (new : List α) : List α :=
  new.foldl (fun l a => if a ∈ l then l else l ++ [a]) l

variable [DecidableEq α]

theorem mem_appendNew {new : List α} {a : α} : a ∈ appendNew l new ↔ a ∈ l ∨ a ∈ new := by
  induction new generalizing l with
  | nil => simp [appendNew]
  | cons b new ih =>
    simp only [appendNew, List.foldl_cons] at ih ⊢
    rw [ih]
    split
    · rename_i hb
      by_cases ha : a = b
      · subst ha; simp [hb]
      · simp [ha]
    · simp [or_assoc]

theorem appendNew_nodup (hl : l.Nodup) (new : List α) : (appendNew l new).Nodup := by
  induction new generalizing l with
  | nil => exact hl
  | cons b new ih =>
    simp only [appendNew, List.foldl_cons] at ih ⊢
    split
    · exact ih hl
    · rename_i hb
      exact ih (List.nodup_append.mpr ⟨hl, List.nodup_singleton b, by
        rintro x hx _ hy rfl
        exact hb (List.mem_singleton.mp hy ▸ hx)⟩)

end Veryfront.Lib
