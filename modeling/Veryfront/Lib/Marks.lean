import Mathlib.Data.List.Basic
import Mathlib.Data.List.Perm.Basic

/-!
# Marks on the positions of a list

A mark says something about one position of a list that is cut and joined. Its index moves with the
list: joining shifts the marks of the second part, cutting selects the marks of a range and makes
them relative to its start.
-/

namespace Veryfront.Lib

universe u

variable {σ : Type u}

structure Mark (σ : Type u) where
  item : σ
  index : Nat
deriving DecidableEq

def shiftMarks (marks : List (Mark σ)) (offset : Nat) : List (Mark σ) :=
  marks.map fun mark => { mark with index := mark.index + offset }

def inRange (start count : Nat) (mark : Mark σ) : Bool := start ≤ mark.index && mark.index < start + count

def selectMarks (marks : List (Mark σ)) (start count : Nat) : List (Mark σ) :=
  (marks.filter (inRange start count)).map fun mark => { mark with index := mark.index - start }

@[simp] theorem selectMarks_append (a b : List (Mark σ)) (start count : Nat) :
    selectMarks (a ++ b) start count = selectMarks a start count ++ selectMarks b start count := by
  rw [selectMarks, List.filter_append, List.map_append]
  rfl

theorem selectMarks_perm {a b : List (Mark σ)} (h : a.Perm b) (start count : Nat) :
    (selectMarks a start count).Perm (selectMarks b start count) := (h.filter _).map _

theorem shiftMarks_perm {a b : List (Mark σ)} (h : a.Perm b) (offset : Nat) : (shiftMarks a offset).Perm (shiftMarks b offset) :=
  h.map _

theorem selectMarks_eq_nil {marks : List (Mark σ)} {start count : Nat} (h : ∀ mark ∈ marks, start + count ≤ mark.index) :
    selectMarks marks start count = [] := by
  rw [selectMarks, List.filter_eq_nil_iff.mpr fun mark hmark => ?_]
  · rfl
  · have := h mark hmark
    simp only [inRange, Bool.and_eq_true, decide_eq_true_eq]
    omega

theorem selectMarks_all {marks : List (Mark σ)} {count : Nat} (h : ∀ mark ∈ marks, mark.index < count) :
    selectMarks marks 0 count = marks := by
  rw [selectMarks, List.filter_eq_self.mpr fun mark hmark => ?_]
  · exact List.map_id' marks
  · have := h mark hmark
    simp only [inRange, Bool.and_eq_true, decide_eq_true_eq]
    omega

theorem selectMarks_shiftMarks (marks : List (Mark σ)) (start count offset : Nat) :
    selectMarks (shiftMarks marks offset) (start + offset) count = selectMarks marks start count := by
  simp only [selectMarks, shiftMarks, List.filter_map, List.map_map]
  have hrange : (inRange (start + offset) count ∘ fun mark : Mark σ => { mark with index := mark.index + offset }) =
      inRange start count := by
    funext mark
    rw [Bool.eq_iff_iff]
    simp only [Function.comp, inRange, Bool.and_eq_true, decide_eq_true_eq]
    omega
  rw [hrange]
  refine List.map_congr_left fun mark _ => ?_
  simp only [Function.comp, Mark.mk.injEq, true_and]
  omega

theorem selectMarks_selectMarks {start count a b : Nat} (marks : List (Mark σ)) (h : a + b ≤ count) :
    selectMarks (selectMarks marks start count) a b = selectMarks marks (start + a) b := by
  simp only [selectMarks, List.filter_map, List.map_map, List.filter_filter]
  have hrange : ∀ mark ∈ marks, ((inRange a b ∘ fun mark : Mark σ => { mark with index := mark.index - start }) mark &&
      inRange start count mark) = inRange (start + a) b mark := by
    intro mark _
    rw [Bool.eq_iff_iff]
    simp only [Function.comp, inRange, Bool.and_eq_true, decide_eq_true_eq]
    omega
  rw [List.filter_congr hrange]
  refine List.map_congr_left fun mark _ => ?_
  simp only [Function.comp, Mark.mk.injEq, true_and]
  omega

theorem selectMarks_split (marks : List (Mark σ)) (start a b : Nat) :
    (selectMarks marks start a ++ shiftMarks (selectMarks marks (start + a) b) a).Perm (selectMarks marks start (a + b)) := by
  have hshift : shiftMarks (selectMarks marks (start + a) b) a =
      (marks.filter (inRange (start + a) b)).map fun mark => { mark with index := mark.index - start } := by
    simp only [shiftMarks, selectMarks, List.map_map]
    refine List.map_congr_left fun mark hmark => ?_
    have hmem := (List.mem_filter.mp hmark).2
    simp only [inRange, Bool.and_eq_true, decide_eq_true_eq] at hmem
    simp only [Function.comp, Mark.mk.injEq, true_and]
    omega
  rw [hshift, selectMarks, ← List.map_append, selectMarks]
  refine List.Perm.map _ ?_
  have hwhole := List.filter_append_perm (inRange start a) (marks.filter (inRange start (a + b)))
  rw [List.filter_filter, List.filter_filter] at hwhole
  have hfirst : marks.filter (fun mark => inRange start a mark && inRange start (a + b) mark) = marks.filter (inRange start a) := by
    refine List.filter_congr fun mark _ => ?_
    rw [Bool.eq_iff_iff]
    simp only [inRange, Bool.and_eq_true, decide_eq_true_eq]
    omega
  have hsecond : marks.filter (fun mark => !inRange start a mark && inRange start (a + b) mark) =
      marks.filter (inRange (start + a) b) := by
    refine List.filter_congr fun mark _ => ?_
    rw [Bool.eq_iff_iff]
    simp only [inRange, Bool.and_eq_true, Bool.not_eq_true', Bool.and_eq_false_iff, decide_eq_true_eq, decide_eq_false_iff_not]
    omega
  rw [hfirst, hsecond] at hwhole
  exact hwhole

end Veryfront.Lib
