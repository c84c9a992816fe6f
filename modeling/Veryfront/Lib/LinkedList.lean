import Mathlib.Data.List.Nodup
import Mathlib.Logic.Function.Basic

/-!
# Doubly linked lists

Nodes that know their neighbours, and the two ends. A list of nodes says in which order they are linked.
-/

namespace Veryfront.Lib

open Function

structure LinkedList (ι : Type*) where
  next : ι → Option ι
  prev : ι → Option ι
  head : Option ι
  tail : Option ι

namespace LinkedList

variable {ι : Type*} [DecidableEq ι]

def empty : LinkedList ι := ⟨fun _ => none, fun _ => none, none, none⟩

/-- Takes the node out. Its own links stay. -/
def removeNode (list : LinkedList ι) (node : ι) : LinkedList ι :=
  let list := match list.prev node with
    | some before => { list with next := update list.next before (list.next node) }
    | none => if list.head = some node then { list with head := list.next node } else list
  match list.next node with
  | some behind => { list with prev := update list.prev behind (list.prev node) }
  | none => if list.tail = some node then { list with tail := list.prev node } else list

def addToFront (list : LinkedList ι) (node : ι) : LinkedList ι :=
  let next := update list.next node list.head
  let prev := update list.prev node none
  match list.head with
  | some head => ⟨next, update prev head (some node), some node, list.tail⟩
  | none => ⟨next, prev, some node, some node⟩

def moveToFront (list : LinkedList ι) (node : ι) : LinkedList ι :=
  if list.head = some node then list else (list.removeNode node).addToFront node

def clear (list : LinkedList ι) : LinkedList ι := { list with head := none, tail := none }

/-- Both ends and both directions of every link are those of the order. -/
structure Represents (list : LinkedList ι) (order : List ι) : Prop where
  nodup : order.Nodup
  head : list.head = order.head?
  tail : list.tail = order.getLast?
  prev : ∀ before node behind, order = before ++ node :: behind → list.prev node = before.getLast?
  next : ∀ before node behind, order = before ++ node :: behind → list.next node = behind.head?

variable {list : LinkedList ι} {order before behind : List ι} {node : ι}

omit [DecidableEq ι] in
theorem represents_clear (list : LinkedList ι) : list.clear.Represents [] :=
  ⟨List.nodup_nil, rfl, rfl, fun _ _ _ h => absurd h (by simp), fun _ _ _ h => absurd h (by simp)⟩

omit [DecidableEq ι] in
theorem represents_empty : (empty : LinkedList ι).Represents [] := represents_clear empty

theorem split_append {α : Type*} {before behind x z : List α} {c : α} (h : before ++ behind = x ++ c :: z) :
    (∃ w, before = x ++ c :: w ∧ z = w ++ behind) ∨ ∃ u, behind = u ++ c :: z ∧ x = before ++ u := by
  rcases List.append_eq_append_iff.mp h with ⟨u, rfl, rfl⟩ | ⟨w, rfl, hw⟩
  · exact .inr ⟨u, rfl, rfl⟩
  · cases w with
    | nil => exact .inr ⟨[], hw.symm, by simp⟩
    | cons d w =>
      obtain ⟨rfl, rfl⟩ := List.cons.inj hw
      exact .inl ⟨w, rfl, rfl⟩

theorem Represents.removed (h : list.Represents (before ++ node :: behind)) :
    (∀ c, (list.removeNode node).next c = if before.getLast? = some c then behind.head? else list.next c) ∧
      (∀ c, (list.removeNode node).prev c = if behind.head? = some c then before.getLast? else list.prev c) ∧
      (list.removeNode node).head = (before ++ behind).head? ∧ (list.removeNode node).tail = (before ++ behind).getLast? := by
  have hprev := h.prev _ _ _ rfl
  have hnext := h.next _ _ _ rfl
  have hhead := h.head
  have htail := h.tail
  have hnodup := h.nodup
  rw [LinkedList.removeNode, hprev]
  rcases List.eq_nil_or_concat before with rfl | ⟨front, first, rfl⟩
  · rw [List.nil_append, List.head?_cons] at hhead
    simp only [List.getLast?_nil, hhead, if_true, hnext]
    cases behind with
    | nil =>
      rw [List.nil_append, List.getLast?_singleton] at htail
      simp [htail, hprev]
    | cons last back =>
      simp only [List.head?_cons, hprev]
      refine ⟨fun c => by simp, fun c => ?_, rfl, ?_⟩
      · simp [update_apply, eq_comm]
      · rw [htail, List.nil_append, List.nil_append, List.getLast?_cons_cons]
  · rw [List.concat_eq_append] at *
    have hfirst : first ≠ node := by
      rintro rfl
      rw [List.nodup_middle, List.nodup_cons] at hnodup
      exact hnodup.1 (List.mem_append_left _ (List.mem_append_right _ List.mem_cons_self))
    simp only [List.getLast?_append, List.getLast?_singleton, Option.some_or, update_of_ne hfirst.symm, hnext]
    cases behind with
    | nil =>
      have htail : list.tail = some node := by rw [htail, List.getLast?_concat]
      simp only [List.head?_nil, htail, if_true, hprev, hhead]
      refine ⟨fun c => ?_, fun c => by simp, ?_, by simp⟩
      · simp [update_apply, eq_comm]
      · cases front <;> rfl
    | cons last back =>
      simp only [List.head?_cons, hprev, hhead, htail]
      refine ⟨fun c => ?_, fun c => ?_, ?_, ?_⟩
      · simp [update_apply, eq_comm]
      · simp [update_apply, eq_comm]
      · cases front <;> rfl
      · simp [List.getLast?_append, List.getLast?_cons]

theorem Represents.removeNode (h : list.Represents (before ++ node :: behind)) :
    (list.removeNode node).Represents (before ++ behind) := by
  obtain ⟨hnext, hprev, hhead, htail⟩ := h.removed
  have hnodup := h.nodup
  refine ⟨hnodup.sublist ((List.Sublist.refl _).append (List.sublist_cons_self _ _)), hhead, htail, ?_, ?_⟩
  · intro x c z heq
    rw [hprev]
    rcases split_append heq with ⟨w, rfl, rfl⟩ | ⟨u, rfl, rfl⟩
    · have hother : behind.head? ≠ some c := by
        intro hc
        have hmem := List.mem_of_head? hc
        simp only [List.append_assoc, List.cons_append] at hnodup
        rw [List.nodup_middle, List.nodup_cons] at hnodup
        exact hnodup.1 (by simp [hmem])
      rw [if_neg hother]
      exact h.prev x c (w ++ node :: behind) (by simp)
    · cases u with
      | nil => simp
      | cons d u =>
        have hother : (d :: u ++ c :: z).head? ≠ some c := by
          rintro ⟨⟩
          have hafter := (List.nodup_cons.mp (List.nodup_append.mp hnodup).2.1).2
          exact (List.nodup_cons.mp hafter).1 (by simp)
        rw [if_neg hother, h.prev (before ++ node :: d :: u) c z (by simp)]
        simp [List.getLast?_append, List.getLast?_cons]
  · intro x c z heq
    rw [hnext]
    rcases split_append heq with ⟨w, rfl, rfl⟩ | ⟨u, rfl, rfl⟩
    · rcases List.eq_nil_or_concat w with rfl | ⟨w, d, rfl⟩
      · simp
      · have hother : (x ++ c :: (w.concat d)).getLast? ≠ some c := by
          intro hc
          rw [List.concat_eq_append, ← List.cons_append, ← List.append_assoc, List.getLast?_concat] at hc
          obtain rfl := Option.some.inj hc
          have hfront := (List.nodup_append.mp hnodup).1
          exact (List.nodup_cons.mp (List.nodup_append.mp hfront).2.1).1 (by simp)
        rw [if_neg hother, h.next x c (w.concat d ++ node :: behind) (by simp)]
        cases w <;> rfl
    · have hother : before.getLast? ≠ some c := by
        intro hc
        have hmem := List.mem_of_getLast? hc
        rw [List.nodup_append] at hnodup
        exact hnodup.2.2 c hmem c (by simp) rfl
      rw [if_neg hother]
      exact h.next (before ++ node :: u) c z (by simp)

theorem Represents.addToFront (h : list.Represents order) (hnew : node ∉ order) :
    (list.addToFront node).Represents (node :: order) := by
  have hother : ∀ {before : List ι} {c : ι} {behind : List ι}, order = before ++ c :: behind → c ≠ node := by
    rintro before c behind rfl rfl
    exact hnew (by simp)
  have hnext : (list.addToFront node).next = update list.next node list.head := by
    rw [LinkedList.addToFront]
    cases list.head <;> rfl
  have hprev : ∀ c, (list.addToFront node).prev c =
      if order.head? = some c then some node else if c = node then none else list.prev c := by
    intro c
    rw [LinkedList.addToFront, h.head]
    cases order with
    | nil => simp [update_apply]
    | cons first order => simp [update_apply, eq_comm]
  refine ⟨List.nodup_cons.mpr ⟨hnew, h.nodup⟩, ?_, ?_, ?_, ?_⟩
  · rw [LinkedList.addToFront]
    cases list.head <;> rfl
  · rw [LinkedList.addToFront, h.head]
    cases order with
    | nil => rfl
    | cons first order => rw [List.getLast?_cons_cons]; exact h.tail
  · intro before c behind heq
    rw [hprev]
    rcases List.cons_eq_append_iff.mp heq with ⟨rfl, hsame⟩ | ⟨front, rfl, horder⟩
    · obtain ⟨rfl, rfl⟩ := List.cons.inj hsame
      have hhead : behind.head? ≠ some c := fun hc => hnew (List.mem_of_head? hc)
      rw [if_neg hhead, if_pos rfl]
      rfl
    · have hprev := h.prev front c behind horder
      cases front with
      | nil => simp [horder]
      | cons first front =>
        have hhead : order.head? ≠ some c := by
          have hnodup := h.nodup
          rw [horder]
          rintro ⟨⟩
          rw [horder, List.cons_append, List.nodup_cons] at hnodup
          exact hnodup.1 (by simp)
        rw [if_neg hhead, if_neg (hother horder), hprev, List.getLast?_cons_cons]
  · intro before c behind heq
    rw [hnext]
    rcases List.cons_eq_append_iff.mp heq with ⟨rfl, hsame⟩ | ⟨front, rfl, horder⟩
    · obtain ⟨rfl, rfl⟩ := List.cons.inj hsame
      rw [update_self, h.head]
    · rw [update_of_ne (hother horder), h.next front c behind horder]

theorem Represents.moveToFront (h : list.Represents (before ++ node :: behind)) :
    (list.moveToFront node).Represents (node :: (before ++ behind)) := by
  rw [LinkedList.moveToFront]
  split
  · rename_i hhead
    cases before with
    | nil => exact h
    | cons first before =>
      -- the head is the first node, not this one
      rw [h.head, List.cons_append, List.head?_cons] at hhead
      obtain rfl := Option.some.inj hhead
      have hnodup := h.nodup
      rw [List.cons_append, List.nodup_cons] at hnodup
      exact absurd (List.mem_append_right _ List.mem_cons_self) hnodup.1
  · refine h.removeNode.addToFront fun hmem => ?_
    have hnodup := h.nodup
    rw [List.nodup_middle, List.nodup_cons] at hnodup
    exact hnodup.1 hmem

end LinkedList

end Veryfront.Lib
