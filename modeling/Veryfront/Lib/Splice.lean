import Mathlib.Data.List.Nodup
import Mathlib.Order.Nat

/-!
# Edits of a text

An edit puts a text in the place of a span. Edits that stay apart have one meaning, in which all of them
happen at once. To splice them in one after another, back to front, comes to the same.
-/

namespace Veryfront.Lib

universe u

structure Edit (α : Type u) where
  start : Nat
  stop : Nat
  text : List α

namespace Edit

variable {α : Type u}

def splice (e : Edit α) (text : List α) : List α := text.take e.start ++ e.text ++ text.drop e.stop

/-! ## All at once -/

/-- What the edits put in at a place. -/
def inserted (edits : List (Edit α)) (i : Nat) : List α := (edits.filter fun e => e.start = i).flatMap (·.text)

/-- Whether an edit takes the place away. -/
def covered (edits : List (Edit α)) (i : Nat) : Bool := edits.any fun e => e.start ≤ i ∧ i < e.stop

def place (source : List α) (edits : List (Edit α)) (i : Nat) : List α :=
  inserted edits i ++ if covered edits i then [] else source[i]?.toList

def substituteFrom (source : List α) (edits : List (Edit α)) (i : Nat) : List α :=
  (List.range' i (source.length + 1 - i)).flatMap (place source edits)

def substitute (source : List α) (edits : List (Edit α)) : List α := substituteFrom source edits 0

variable {source : List α} {edits : List (Edit α)} {e : Edit α} {i j : Nat}

theorem substituteFrom_split (source : List α) (edits : List (Edit α)) (hij : i ≤ j) (hj : j ≤ source.length + 1) :
    substituteFrom source edits i =
      (List.range' i (j - i)).flatMap (place source edits) ++ substituteFrom source edits j := by
  have hlength : source.length + 1 - i = (j - i) + (source.length + 1 - j) := by omega
  rw [substituteFrom, hlength, ← List.range'_append_1, List.flatMap_append, Nat.add_sub_cancel' hij]
  rfl

/-! ### Places that no edit touches -/

def Behind (i : Nat) (edits : List (Edit α)) : Prop := ∀ e ∈ edits, i ≤ e.start

theorem place_of_behind (hedits : Behind j edits) (hij : i < j) : place source edits i = source[i]?.toList := by
  have hnone : edits.filter (fun e => e.start = i) = [] := by
    refine List.filter_eq_nil_iff.mpr fun e he => ?_
    have := hedits e he
    simp
    omega
  have hcovered : covered edits i = false := by
    refine List.any_eq_false.mpr fun e he => ?_
    have := hedits e he
    simp
    omega
  rw [place, inserted, hnone, hcovered]
  rfl

theorem flatMap_getElem? (source : List α) (j : Nat) :
    (List.range' 0 j).flatMap (fun i => source[i]?.toList) = source.take j := by
  induction j with
  | zero => rfl
  | succ j ih =>
    rw [List.range'_concat, List.flatMap_append, ih, List.take_add_one]
    simp

theorem substitute_eq (hedits : Behind j edits) (hj : j ≤ source.length) :
    substitute source edits = source.take j ++ substituteFrom source edits j := by
  rw [substitute, substituteFrom_split source edits (Nat.zero_le j) (by omega), Nat.sub_zero, ← flatMap_getElem?]
  congr 1
  exact List.flatMap_congr fun i hi => place_of_behind hedits (by simpa using hi)

theorem substitute_nil (source : List α) : substitute source [] = source := by
  have hnone : Behind source.length ([] : List (Edit α)) := fun _ he => absurd he List.not_mem_nil
  rw [substitute_eq hnone le_rfl, List.take_length, substituteFrom, Nat.add_sub_cancel_left]
  simp [place, inserted, covered]

/-! ### One edit in front of the others -/

structure Front (e : Edit α) (source : List α) (edits : List (Edit α)) : Prop where
  start_le : e.start ≤ e.stop
  stop_le : e.stop ≤ source.length
  apart : Behind e.stop edits
  first : Behind (e.start + 1) edits

theorem Front.place_start (h : Front e source edits) :
    place source (e :: edits) e.start = e.text ++ if e.start < e.stop then [] else place source edits e.start := by
  have hnone : edits.filter (fun f => f.start = e.start) = [] := by
    refine List.filter_eq_nil_iff.mpr fun f hf => ?_
    have := h.first f hf
    simp
    omega
  have hcovered : covered (e :: edits) e.start = (decide (e.start < e.stop) || covered edits e.start) := by
    simp [covered]
  rw [place, place, inserted, inserted, List.filter_cons_of_pos (by simp), hnone, hcovered]
  by_cases hlt : e.start < e.stop
  · simp [hlt]
  · simp [hlt]

theorem Front.place_inside (h : Front e source edits) (hi : e.start < i) (hstop : i < e.stop) :
    place source (e :: edits) i = [] := by
  have hnone : (e :: edits).filter (fun f => f.start = i) = [] := by
    refine List.filter_eq_nil_iff.mpr fun f hf => ?_
    rw [decide_eq_true_eq]
    rcases List.mem_cons.mp hf with rfl | hf
    · omega
    · have := h.apart f hf
      omega
  have hcovered : covered (e :: edits) i = true := by
    refine List.any_eq_true.mpr ⟨e, List.mem_cons_self, ?_⟩
    simp
    omega
  rw [place, inserted, hnone, hcovered]
  rfl

theorem place_cons_after (hi : e.start < i) (hstop : e.stop ≤ i) : place source (e :: edits) i = place source edits i := by
  have hcovered : covered (e :: edits) i = covered edits i := by
    simp [covered]
    omega
  rw [place, place, hcovered, inserted, inserted, List.filter_cons_of_neg (by simp; omega)]

theorem substituteFrom_cons_after (hi : e.start < i) (hstop : e.stop ≤ i) :
    substituteFrom source (e :: edits) i = substituteFrom source edits i := by
  refine List.flatMap_congr fun k hk => ?_
  rw [List.mem_range'_1] at hk
  exact place_cons_after (by omega) (by omega)

theorem Front.substituteFrom (h : Front e source edits) :
    substituteFrom source (e :: edits) e.start = e.text ++ Edit.substituteFrom source edits e.stop := by
  have hstart := h.start_le
  have hstop := h.stop_le
  have hhead (edits : List (Edit α)) : Edit.substituteFrom source edits e.start =
      place source edits e.start ++ Edit.substituteFrom source edits (e.start + 1) := by
    rw [substituteFrom_split source edits (Nat.le_succ e.start) (by omega)]
    simp
  rw [hhead (e :: edits), h.place_start, List.append_assoc]
  congr 1
  by_cases hlt : e.start < e.stop
  · rw [if_pos hlt, List.nil_append, substituteFrom_split source (e :: edits) (j := e.stop) (by omega) (by omega),
      substituteFrom_cons_after hlt le_rfl, List.flatMap_eq_nil_iff.mpr, List.nil_append]
    intro k hk
    rw [List.mem_range'_1] at hk
    exact h.place_inside (by omega) (by omega)
  · have heq : e.stop = e.start := by omega
    rw [if_neg hlt, substituteFrom_cons_after (Nat.lt_succ_self _) (by omega), heq, hhead edits]

theorem Front.splice (h : Front e source edits) :
    e.splice (substitute source edits) = substitute source (e :: edits) := by
  have hstart := h.start_le
  have hstop := h.stop_le
  have hfront : Behind e.start (e :: edits) := by
    intro f hf
    rcases List.mem_cons.mp hf with rfl | hf
    · exact le_rfl
    · exact (Nat.le_succ _).trans (h.first f hf)
  have htake : (substitute source edits).take e.start = source.take e.start := by
    rw [substitute_eq (fun f hf => hfront f (List.mem_cons_of_mem e hf)) (hstart.trans hstop)]
    exact List.take_left' (by simp; omega)
  have hdrop : (substitute source edits).drop e.stop = Edit.substituteFrom source edits e.stop := by
    rw [substitute_eq h.apart hstop]
    exact List.drop_left' (by simp; omega)
  rw [Edit.splice, htake, hdrop, substitute_eq hfront (hstart.trans hstop), h.substituteFrom, List.append_assoc]

/-! ### Any order -/

theorem substitute_perm {edits' : List (Edit α)} (hperm : edits.Perm edits') (hnodup : (edits.map (·.start)).Nodup) :
    substitute source edits = substitute source edits' := by
  refine List.flatMap_congr fun i _ => ?_
  have hcovered : covered edits i = covered edits' i := hperm.any_eq
  have hfilter := hperm.filter (fun e => e.start = i)
  have hone : (edits.filter fun e => e.start = i).length ≤ 1 := by
    rw [← List.countP_eq_length_filter]
    refine le_trans (le_of_eq ?_) (List.nodup_iff_count_le_one.mp hnodup i)
    rw [List.count, List.countP_map]
    rfl
  have hsame : (edits.filter fun e => e.start = i) = edits'.filter fun e => e.start = i := by
    generalize edits.filter (fun e => e.start = i) = here at hfilter hone
    match here with
    | [] => exact (List.nil_perm.mp hfilter).symm
    | [e] => exact List.singleton_perm.mp hfilter
  rw [place, place, inserted, inserted, hcovered, hsame]

end Edit

end Veryfront.Lib
