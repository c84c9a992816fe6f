import Mathlib.Data.List.Infix
import Mathlib.Logic.Function.Basic

/-!
# Paths of joined segments

The names on the way down a tree, each as a segment, are joined by a separator that is in no segment. Such a path stands
for one way, and what is above what can be told from the paths.
-/

namespace Veryfront.Lib

variable {ι α : Type*}

/-- The segments of names, which are told from what stands around them in a path. -/
structure SegmentCode (ι α : Type*) where
  segment : ι → List α
  separator : α
  injective : Function.Injective segment
  separated : ∀ name, separator ∉ segment name

namespace SegmentCode

variable (code : SegmentCode ι α)

def path (names : List ι) : List α := [code.separator].intercalate (names.map code.segment)

theorem path_singleton (name : ι) : code.path [name] = code.segment name := List.intercalate_singleton

theorem path_append {names rest : List ι} (hnames : names ≠ []) (hrest : rest ≠ []) :
    code.path (names ++ rest) = code.path names ++ code.separator :: code.path rest := by
  induction names with
  | nil => exact absurd rfl hnames
  | cons name names ih =>
    cases names with
    | nil =>
      have hmap : rest.map code.segment ≠ [] := by simpa using hrest
      simp [path, List.intercalate_cons_of_ne_nil hmap]
    | cons next names =>
      have htail := ih (List.cons_ne_nil _ _)
      simp only [path, List.cons_append, List.map_cons, List.intercalate_cons_cons] at htail ⊢
      rw [htail]
      simp

theorem splitOn_path [DecidableEq α] {names : List ι} (h : names ≠ []) :
    (code.path names).splitOn code.separator = names.map code.segment := by
  refine List.splitOn_intercalate code.separator (fun segment hsegment => ?_) (by simpa using h)
  obtain ⟨name, -, rfl⟩ := List.mem_map.mp hsegment
  exact code.separated name

theorem path_inj [DecidableEq α] {names names' : List ι} (h : names ≠ []) (h' : names' ≠ []) :
    code.path names = code.path names' ↔ names = names' := by
  constructor
  · intro hpath
    have hsegments := code.splitOn_path h
    rw [hpath, code.splitOn_path h'] at hsegments
    exact (code.injective.list_map hsegments).symm
  · rintro rfl
    rfl

theorem path_prefix_iff [DecidableEq α] {names above : List ι} (h : names ≠ []) (habove : above ≠ []) :
    code.path names = code.path above ∨ code.path above ++ [code.separator] <+: code.path names ↔ above <+: names := by
  constructor
  · rintro (hpath | ⟨rest, hrest⟩)
    · rw [(code.path_inj h habove).mp hpath]
    · have hsegments := code.splitOn_path h
      rw [← hrest, List.append_assoc, List.singleton_append, List.splitOn_append_cons_self, code.splitOn_path habove] at hsegments
      exact (List.prefix_map_iff_of_injective code.injective).mp ⟨_, hsegments⟩
  · rintro ⟨rest, rfl⟩
    by_cases hrest : rest = []
    · subst hrest
      exact .inl (by rw [List.append_nil])
    · refine .inr ⟨code.path rest, ?_⟩
      rw [code.path_append habove hrest, List.append_assoc, List.singleton_append]

end SegmentCode

end Veryfront.Lib
