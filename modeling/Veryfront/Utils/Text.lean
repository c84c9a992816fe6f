import Mathlib.Data.List.Infix
import Mathlib.Data.List.Lex

/-!
# Text

A string as the list of its UTF-16 code units, which is what its length, its slices and its order count.
-/

namespace Veryfront

abbrev Text := List Nat

def lf : Nat := 10

def cr : Nat := 13

namespace Text

instance lawfulBEq : LawfulBEq Text := inferInstance

def units (c : Char) : Text :=
  if c.toNat < 0x10000 then [c.toNat]
  else [0xD800 + (c.toNat - 0x10000) / 0x400, 0xDC00 + (c.toNat - 0x10000) % 0x400]

def of (s : String) : Text := s.toList.flatMap units

theorem of_ofList (characters : List Char) : of (String.ofList characters) = characters.flatMap units := by
  rw [of, String.toList_ofList]

/-- The text of a string, a unit of which has sixteen bits. -/
def ofUnits (value : List UInt16) : Text := value.map UInt16.toNat

theorem ofUnits_lt {value : List UInt16} : ∀ unit ∈ ofUnits value, unit < 0x10000 := by
  intro unit hunit
  obtain ⟨u, -, rfl⟩ := List.mem_map.mp hunit
  exact u.toNat_lt

def startsWith (t : Text) (s : String) : Bool := (of s).isPrefixOf t

def endsWith (t : Text) (s : String) : Bool := (of s).isSuffixOf t

def includes (t : Text) (s : String) : Bool := decide (of s <:+: t)

def whiteSpace : List Nat :=
  [9, 10, 11, 12, 13, 32, 160, 0x1680, 0x2000, 0x2001, 0x2002, 0x2003, 0x2004, 0x2005, 0x2006, 0x2007, 0x2008, 0x2009,
    0x200A, 0x2028, 0x2029, 0x202F, 0x205F, 0x3000, 0xFEFF]

def trimStart (t : Text) : Text := t.dropWhile (· ∈ whiteSpace)

def trim (t : Text) : Text := (trimStart (trimStart t).reverse).reverse

end Text

/-- What stands before the first `closing`, and after it. -/
def splitAtFirst (closing : Text) : Text → Option (Text × Text)
  | [] => if closing = [] then some ([], []) else none
  | c :: rest =>
    if closing.isPrefixOf (c :: rest) then some ([], (c :: rest).drop closing.length)
    else (splitAtFirst closing rest).map fun (before, after) => (c :: before, after)

theorem trim_of_solid {text : Text} (h : ∃ unit rest, text = unit :: rest ∧ unit ∉ Text.whiteSpace)
    (h' : ∃ rest unit, text = rest ++ [unit] ∧ unit ∉ Text.whiteSpace) : text.trim = text := by
  have hstart : ∀ {unit rest}, unit ∉ Text.whiteSpace → Text.trimStart (unit :: rest) = unit :: rest :=
    fun hunit => List.dropWhile_cons_of_neg (by simpa using hunit)
  obtain ⟨unit, rest, rfl, hunit⟩ := h
  obtain ⟨front, last, heq, hlast⟩ := h'
  rw [Text.trim, hstart hunit, heq, List.reverse_append, List.reverse_singleton, List.singleton_append, hstart hlast,
    List.reverse_cons, List.reverse_reverse]

theorem splitAtFirst_eq_some {sep t l r : Text} (h : splitAtFirst sep t = some (l, r)) : t = l ++ sep ++ r := by
  induction t generalizing l with
  | nil =>
    rw [splitAtFirst] at h
    split at h
    · rename_i hsep
      obtain ⟨rfl, rfl⟩ := Prod.mk.inj (Option.some.inj h)
      rw [hsep]
      rfl
    · cases h
  | cons c t ih =>
    rw [splitAtFirst] at h
    split at h
    · rename_i hstart
      obtain ⟨rest, hrest⟩ := List.isPrefixOf_iff_prefix.mp hstart
      obtain ⟨rfl, rfl⟩ := Prod.mk.inj (Option.some.inj h)
      rw [← hrest, List.drop_left, List.nil_append]
    · obtain ⟨⟨before, after⟩, hsplit, h⟩ := Option.map_eq_some_iff.mp h
      obtain ⟨rfl, rfl⟩ := Prod.mk.inj h
      rw [ih hsplit]
      rfl

theorem splitAtFirst_eq_none {sep t : Text} : splitAtFirst sep t = none ↔ ¬ sep <:+: t := by
  induction t with
  | nil =>
    rw [splitAtFirst, List.infix_nil]
    split <;> simp [*]
  | cons c t ih =>
    rw [splitAtFirst, List.infix_cons_iff, ← List.isPrefixOf_iff_prefix]
    split
    · simp [*]
    · simp [*]

theorem splitAtFirst_unit {unit : Nat} {before : Text} (h : unit ∉ before) (after : Text) :
    splitAtFirst [unit] (before ++ unit :: after) = some (before, after) := by
  induction before with
  | nil => simp [splitAtFirst]
  | cons c before ih =>
    rw [List.mem_cons, not_or] at h
    rw [List.cons_append, splitAtFirst, if_neg (by simp [h.1]), ih h.2]
    rfl

end Veryfront
