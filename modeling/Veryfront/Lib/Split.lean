import Mathlib.Data.List.Infix
import Mathlib.Tactic.TypeStar

/-!
# Splitting at separators

A list is cut at the separators found in it from left to right. What comes after the last separator is not
complete yet: when the list arrives in chunks, it is kept and put before the next chunk. For a separator that is
one fixed list, the chunks make no difference to what is cut.
-/

namespace Veryfront.Lib

variable {α : Type*}

structure Separator (α : Type*) where
  find : List α → Option (List α)
  cuts : ∀ {t rest}, find t = some rest → ∃ mark, mark ≠ [] ∧ t = mark ++ rest

namespace Separator

variable (sep : Separator α)

/-- The pieces between the separators, found in `fuel` steps. -/
def pieces : Nat → List α → List (List α)
  | 0, _ => [[]]
  | _, [] => [[]]
  | fuel + 1, a :: t =>
    match sep.find (a :: t) with
    | some rest => [] :: pieces fuel rest
    | none => (pieces fuel t).modifyHead (a :: ·)

def split (t : List α) : List (List α) := sep.pieces t.length t

/-- The pieces that are followed by a separator. -/
def complete (t : List α) : List (List α) := (sep.split t).dropLast

def remainder (t : List α) : List α := (sep.split t).getLast?.getD []

/-- No separator starts in the first part of a list. -/
def SkipsOver (x t : List α) : Prop := ∀ y, y ≠ [] → y <:+ x → sep.find (y ++ t) = none

/-! ## The pieces -/

variable {t : List α}

theorem shrinks {rest : List α} (h : sep.find t = some rest) : rest.length < t.length := by
  obtain ⟨mark, hmark, rfl⟩ := sep.cuts h
  have hpos := List.length_pos_iff.mpr hmark
  rw [List.length_append]
  omega

theorem find_nil : sep.find [] = none := by
  cases h : sep.find [] with
  | none => rfl
  | some rest => exact absurd (sep.shrinks h) (Nat.not_lt_zero _)

theorem pieces_eq_split (fuel : Nat) (t : List α) (h : t.length ≤ fuel) : sep.pieces fuel t = sep.split t := by
  have key : ∀ n m (t : List α), t.length ≤ n → t.length ≤ m → sep.pieces n t = sep.pieces m t := by
    intro n
    induction n with
    | zero =>
      intro m t hn _
      obtain rfl := List.length_eq_zero_iff.mp (Nat.le_zero.mp hn)
      cases m <;> rfl
    | succ n ih =>
      intro m t hn hm
      cases t with
      | nil => cases m <;> rfl
      | cons a t =>
        cases m with
        | zero => cases hm
        | succ m =>
          simp only [List.length_cons, Nat.add_le_add_iff_right] at hn hm
          unfold pieces
          split
          · rename_i rest hfind
            have hlt := sep.shrinks hfind
            rw [List.length_cons] at hlt
            rw [ih m rest (by omega) (by omega)]
          · rw [ih m t hn hm]
  exact key fuel t.length t h le_rfl

@[simp] theorem split_nil : sep.split [] = [[]] := rfl

theorem split_of_find {rest : List α} (h : sep.find t = some rest) : sep.split t = [] :: sep.split rest := by
  cases t with
  | nil => rw [find_nil] at h; cases h
  | cons a t =>
    have hlt := sep.shrinks h
    rw [List.length_cons] at hlt
    rw [split, List.length_cons, pieces, h]
    exact congrArg _ (sep.pieces_eq_split _ _ (Nat.le_of_lt_succ hlt))

theorem split_cons {a : α} (h : sep.find (a :: t) = none) :
    sep.split (a :: t) = (sep.split t).modifyHead (a :: ·) := by
  rw [split, List.length_cons, pieces, h]
  rfl

theorem split_ne_nil (t : List α) : sep.split t ≠ [] := by
  unfold split
  cases t with
  | nil => exact List.cons_ne_nil _ _
  | cons a t =>
    rw [List.length_cons, pieces]
    split
    · exact List.cons_ne_nil _ _
    · rw [ne_eq, List.modifyHead_eq_nil_iff]
      exact split_ne_nil t

theorem split_append {x : List α} (h : sep.SkipsOver x t) : sep.split (x ++ t) = (sep.split t).modifyHead (x ++ ·) := by
  induction x with
  | nil =>
    obtain ⟨p, ps, hps⟩ := List.exists_cons_of_ne_nil (sep.split_ne_nil t)
    rw [List.nil_append, hps]
    rfl
  | cons a x ih =>
    have hrest : sep.SkipsOver x t := fun y hy hyx => h y hy (hyx.trans (List.suffix_cons a x))
    have hfind : sep.find (a :: (x ++ t)) = none := h (a :: x) (List.cons_ne_nil _ _) List.suffix_rfl
    rw [List.cons_append, sep.split_cons hfind, ih hrest, List.modifyHead_modifyHead]
    rfl

/-! ## The first separator -/

theorem split_of_skipsOver (h : sep.SkipsOver t []) : sep.split t = [t] := by
  have hsplit := sep.split_append h
  rwa [List.append_nil, split_nil, List.modifyHead_cons, List.append_nil] at hsplit

theorem split_cut {p s rest : List α} (hskip : sep.SkipsOver p s) (hfind : sep.find s = some rest) :
    sep.split (p ++ s) = p :: sep.split rest := by
  rw [sep.split_append hskip, sep.split_of_find hfind, List.modifyHead_cons, List.append_nil]

theorem cut_cases (t : List α) :
    sep.SkipsOver t [] ∨ ∃ p s rest, t = p ++ s ∧ sep.SkipsOver p s ∧ sep.find s = some rest := by
  induction t with
  | nil =>
    refine Or.inl fun y hy hsuffix => ?_
    exact absurd (List.suffix_nil.mp hsuffix) hy
  | cons a t ih =>
    have skips_cons : ∀ {x s}, sep.SkipsOver x s → sep.find (a :: x ++ s) = none → sep.SkipsOver (a :: x) s := by
      intro x s hx hfind y hy hsuffix
      obtain rfl | hsuffix := List.suffix_cons_iff.mp hsuffix
      · exact hfind
      · exact hx y hy hsuffix
    cases hfind : sep.find (a :: t) with
    | some rest =>
      refine Or.inr ⟨[], a :: t, rest, rfl, fun y hy hsuffix => ?_, hfind⟩
      exact absurd (List.suffix_nil.mp hsuffix) hy
    | none =>
      obtain hnone | ⟨p, s, rest, rfl, hskip, hrest⟩ := ih
      · exact Or.inl (skips_cons hnone (by rwa [List.append_nil]))
      · exact Or.inr ⟨a :: p, s, rest, rfl, skips_cons hskip hfind, hrest⟩

theorem complete_of_skipsOver (h : sep.SkipsOver t []) : sep.complete t = [] := by
  rw [complete, sep.split_of_skipsOver h]
  rfl

theorem remainder_of_skipsOver (h : sep.SkipsOver t []) : sep.remainder t = t := by
  rw [remainder, sep.split_of_skipsOver h]
  rfl

theorem complete_cut {p s rest : List α} (hskip : sep.SkipsOver p s) (hfind : sep.find s = some rest) :
    sep.complete (p ++ s) = p :: sep.complete rest := by
  rw [complete, sep.split_cut hskip hfind, List.dropLast_cons_of_ne_nil (sep.split_ne_nil rest)]
  rfl

theorem remainder_cut {p s rest : List α} (hskip : sep.SkipsOver p s) (hfind : sep.find s = some rest) :
    sep.remainder (p ++ s) = sep.remainder rest := by
  rw [remainder, sep.split_cut hskip hfind, List.getLast?_cons_of_ne_nil (sep.split_ne_nil rest)]
  rfl

theorem split_eq (t : List α) : sep.split t = sep.complete t ++ [sep.remainder t] := by
  have hne := sep.split_ne_nil t
  rw [complete, remainder, List.getLast?_eq_some_getLast hne, Option.getD_some, List.dropLast_append_getLast hne]

/-- What holds without a separator, and holds before the first separator if it does after it, always holds. -/
theorem cut_induction {P : List α → Prop} (whole : ∀ t, sep.SkipsOver t [] → P t)
    (cut : ∀ p s rest, sep.SkipsOver p s → sep.find s = some rest → P rest → P (p ++ s)) (t : List α) : P t := by
  obtain hnone | ⟨p, s, rest, rfl, hskip, hfind⟩ := sep.cut_cases t
  · exact whole t hnone
  · have hlt := sep.shrinks hfind
    exact cut p s rest hskip hfind (cut_induction whole cut rest)
termination_by t.length
decreasing_by
  simp_all only [List.length_append]
  omega

theorem skipsOver_remainder (t : List α) : sep.SkipsOver (sep.remainder t) [] := by
  induction t using sep.cut_induction with
  | whole t h => rwa [sep.remainder_of_skipsOver h]
  | cut p s rest hskip hfind ih => rwa [sep.remainder_cut hskip hfind]

theorem remainder_suffix (t : List α) : sep.remainder t <:+ t := by
  induction t using sep.cut_induction with
  | whole t h => rw [sep.remainder_of_skipsOver h]
  | cut p s rest hskip hfind ih =>
    obtain ⟨mark, -, rfl⟩ := sep.cuts hfind
    rw [sep.remainder_cut hskip hfind]
    exact ih.trans ((List.suffix_append mark rest).trans (List.suffix_append p _))

theorem mem_complete {p : List α} (h : p ∈ sep.complete t) : p <:+: t ∧ ∃ s, sep.SkipsOver p s := by
  induction t using sep.cut_induction with
  | whole t hskip =>
    rw [sep.complete_of_skipsOver hskip] at h
    cases h
  | cut q s rest hskip hfind ih =>
    obtain ⟨mark, -, rfl⟩ := sep.cuts hfind
    rw [sep.complete_cut hskip hfind] at h
    obtain rfl | h := List.mem_cons.mp h
    · exact ⟨(List.prefix_append p _).isInfix, _, hskip⟩
    · obtain ⟨hin, hs⟩ := ih h
      exact ⟨hin.trans ((List.suffix_append mark rest).trans (List.suffix_append q _)).isInfix, hs⟩

theorem split_congr {sep sep' : Separator α} (h : ∀ s, s <:+ t → sep.find s = sep'.find s) :
    sep.split t = sep'.split t := by
  induction t using sep.cut_induction with
  | whole t hskip =>
    rw [sep.split_of_skipsOver hskip, sep'.split_of_skipsOver]
    intro y hy hsuffix
    rw [List.append_nil, ← h y hsuffix, ← hskip y hy hsuffix, List.append_nil]
  | cut p s rest hskip hfind ih =>
    have hs : s <:+ p ++ s := List.suffix_append p s
    have hskip' : sep'.SkipsOver p s := by
      intro y hy hsuffix
      obtain ⟨x, rfl⟩ := hsuffix
      rw [← h (y ++ s) ⟨x, by rw [List.append_assoc]⟩]
      exact hskip y hy (List.suffix_append x y)
    obtain ⟨mark, -, hmark⟩ := sep.cuts hfind
    rw [sep.split_cut hskip hfind, sep'.split_cut hskip' ((h s hs).symm.trans hfind), ih]
    intro y hsuffix
    exact h y (hsuffix.trans ((hmark ▸ List.suffix_append mark rest).trans hs))

/-! ## Chunks -/

/-- The pieces cut while the chunks come in, each put after what was kept before it, and what is kept in the end. -/
def feed (kept : List α) : List (List α) → List (List α) × List α
  | [] => ([], kept)
  | chunk :: chunks =>
    let (cut, last) := feed (sep.remainder (kept ++ chunk)) chunks
    (sep.complete (kept ++ chunk) ++ cut, last)

end Separator

/-! ## One fixed separator -/

section Fixed

variable [DecidableEq α]

def fixedSeparator (a : α) (pat : List α) : Separator α where
  find t := if (a :: pat).isPrefixOf t then some (t.drop (pat.length + 1)) else none
  cuts := by
    intro t rest h
    split at h
    · rename_i hpre
      obtain ⟨u, rfl⟩ := List.isPrefixOf_iff_prefix.mp hpre
      obtain rfl := Option.some.inj h
      exact ⟨a :: pat, List.cons_ne_nil _ _, by simp⟩
    · cases h

variable {a : α} {pat : List α}

theorem fixed_find_eq_some {t rest : List α} : (fixedSeparator a pat).find t = some rest ↔ t = a :: pat ++ rest := by
  unfold fixedSeparator
  constructor
  · intro h
    simp only at h
    split at h
    · rename_i hpre
      obtain ⟨u, rfl⟩ := List.isPrefixOf_iff_prefix.mp hpre
      obtain rfl := Option.some.inj h
      simp
    · cases h
  · rintro rfl
    simp

theorem fixed_find_eq_none {t : List α} : (fixedSeparator a pat).find t = none ↔ ¬ a :: pat <+: t := by
  unfold fixedSeparator
  simp only
  split
  · rename_i h
    simp [List.isPrefixOf_iff_prefix.mp h]
  · rename_i h
    simp only [true_iff]
    exact fun hpre => h (List.isPrefixOf_iff_prefix.mpr hpre)

theorem fixed_split_append (t u : List α) : (fixedSeparator a pat).split (t ++ u) =
    (fixedSeparator a pat).complete t ++ (fixedSeparator a pat).split ((fixedSeparator a pat).remainder t ++ u) := by
  induction t using (fixedSeparator a pat).cut_induction with
  | whole t h => rw [Separator.complete_of_skipsOver _ h, Separator.remainder_of_skipsOver _ h, List.nil_append]
  | cut p s rest hskip hfind ih =>
    obtain rfl := fixed_find_eq_some.mp hfind
    have hskip' : (fixedSeparator a pat).SkipsOver p ((a :: pat ++ rest) ++ u) := by
      intro y hy hsuffix
      have hnone := fixed_find_eq_none.mp (hskip y hy hsuffix)
      rw [fixed_find_eq_none, ← List.append_assoc]
      intro hpre
      refine hnone (List.prefix_of_prefix_length_le hpre (List.prefix_append _ _) ?_)
      rw [List.length_append, List.length_append]
      omega
    rw [List.append_assoc, Separator.split_cut _ hskip' (fixed_find_eq_some.mpr (List.append_assoc _ _ _)), ih,
      Separator.complete_cut _ hskip hfind, Separator.remainder_cut _ hskip hfind]
    rfl

theorem fixed_complete_append (t u : List α) : (fixedSeparator a pat).complete (t ++ u) =
    (fixedSeparator a pat).complete t ++ (fixedSeparator a pat).complete ((fixedSeparator a pat).remainder t ++ u) := by
  rw [Separator.complete, fixed_split_append, List.dropLast_append_of_ne_nil (Separator.split_ne_nil _ _)]
  rfl

theorem fixed_remainder_append (t u : List α) : (fixedSeparator a pat).remainder (t ++ u) =
    (fixedSeparator a pat).remainder ((fixedSeparator a pat).remainder t ++ u) := by
  rw [Separator.remainder, fixed_split_append, List.getLast?_append_of_ne_nil _ (Separator.split_ne_nil _ _)]
  rfl

theorem fixed_feed (kept : List α) (chunks : List (List α)) (h : (fixedSeparator a pat).SkipsOver kept []) :
    (fixedSeparator a pat).feed kept chunks =
      ((fixedSeparator a pat).complete (kept ++ chunks.flatten), (fixedSeparator a pat).remainder (kept ++ chunks.flatten)) := by
  induction chunks generalizing kept with
  | nil =>
    rw [List.flatten_nil, List.append_nil, Separator.complete_of_skipsOver _ h, Separator.remainder_of_skipsOver _ h]
    rfl
  | cons chunk chunks ih =>
    rw [Separator.feed, ih _ (Separator.skipsOver_remainder _ _), List.flatten_cons, ← List.append_assoc,
      fixed_complete_append (kept ++ chunk), fixed_remainder_append (kept ++ chunk)]

end Fixed

end Veryfront.Lib
