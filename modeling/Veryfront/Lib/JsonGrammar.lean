import Mathlib.Data.List.Basic

/-!
# The grammar of JSON

Which texts of UTF-16 code units are JSON.
-/

namespace Veryfront.Lib.Json

def isWhitespace (u : UInt16) : Bool := u = 9 || u = 10 || u = 13 || u = 32

def Whitespace (text : List UInt16) : Prop := ∀ u ∈ text, isWhitespace u = true

def isDigit (u : UInt16) : Bool := 48 ≤ u && u ≤ 57

def isHexDigit (u : UInt16) : Bool := isDigit u || (65 ≤ u && u ≤ 70) || (97 ≤ u && u ≤ 102)

/-- What stands between the quotes of a string. -/
inductive Characters : List UInt16 → Prop
  | nil : Characters []
  | plain {u : UInt16} {rest : List UInt16} (h : 32 ≤ u ∧ u ≠ 34 ∧ u ≠ 92) (hrest : Characters rest) : Characters (u :: rest)
  | escape {u : UInt16} {rest : List UInt16} (h : u ∈ [34, 92, 47, 98, 102, 110, 114, 116]) (hrest : Characters rest) :
      Characters (92 :: u :: rest)
  | unicode {digits rest : List UInt16} (hlength : digits.length = 4) (h : ∀ u ∈ digits, isHexDigit u = true)
      (hrest : Characters rest) : Characters (92 :: 117 :: (digits ++ rest))

inductive Str : List UInt16 → Prop
  | quoted {body : List UInt16} (h : Characters body) : Str (34 :: (body ++ [34]))

def Digits (text : List UInt16) : Prop := text ≠ [] ∧ ∀ u ∈ text, isDigit u = true

inductive Fraction : List UInt16 → Prop
  | none : Fraction []
  | some {digits : List UInt16} (h : Digits digits) : Fraction (46 :: digits)

inductive Exponent : List UInt16 → Prop
  | none : Exponent []
  | some {mark : UInt16} {sign digits : List UInt16} (hmark : mark = 69 ∨ mark = 101) (hsign : sign ∈ [[], [43], [45]])
      (h : Digits digits) : Exponent (mark :: (sign ++ digits))

inductive Number : List UInt16 → Prop
  | parts {minus whole fraction exponent : List UInt16} (hminus : minus = [] ∨ minus = [45]) (hwhole : Digits whole)
      (hzero : whole.head? = some 48 → whole = [48]) (hfraction : Fraction fraction) (hexponent : Exponent exponent) :
      Number (minus ++ whole ++ fraction ++ exponent)

mutual

inductive Value : List UInt16 → Prop
  | null : Value [110, 117, 108, 108]
  | true : Value [116, 114, 117, 101]
  | false : Value [102, 97, 108, 115, 101]
  | number {text : List UInt16} (h : Number text) : Value text
  | string {text : List UInt16} (h : Str text) : Value text
  | array {text : List UInt16} (h : Array text) : Value text
  | object {text : List UInt16} (h : Object text) : Value text

inductive Array : List UInt16 → Prop
  | empty {space : List UInt16} (h : Whitespace space) : Array (91 :: (space ++ [93]))
  | filled {elements : List UInt16} (h : Elements elements) : Array (91 :: (elements ++ [93]))

inductive Elements : List UInt16 → Prop
  | one {before value after : List UInt16} (hbefore : Whitespace before) (h : Value value) (hafter : Whitespace after) :
      Elements (before ++ value ++ after)
  | more {before value after rest : List UInt16} (hbefore : Whitespace before) (h : Value value) (hafter : Whitespace after)
      (hrest : Elements rest) : Elements (before ++ value ++ after ++ 44 :: rest)

inductive Object : List UInt16 → Prop
  | empty {space : List UInt16} (h : Whitespace space) : Object (123 :: (space ++ [125]))
  | filled {members : List UInt16} (h : Members members) : Object (123 :: (members ++ [125]))

inductive Members : List UInt16 → Prop
  | one {member : List UInt16} (h : Member member) : Members member
  | more {member rest : List UInt16} (h : Member member) (hrest : Members rest) : Members (member ++ 44 :: rest)

inductive Member : List UInt16 → Prop
  | named {before name between space value after : List UInt16} (hbefore : Whitespace before) (hname : Str name)
      (hbetween : Whitespace between) (hspace : Whitespace space) (h : Value value) (hafter : Whitespace after) :
      Member (before ++ name ++ between ++ 58 :: (space ++ value ++ after))

end

inductive ObjectText : List UInt16 → Prop
  | spaced {before object after : List UInt16} (hbefore : Whitespace before) (h : Object object) (hafter : Whitespace after) :
      ObjectText (before ++ object ++ after)

theorem Member.head {member : List UInt16} (h : Member member) : ∃ u rest, member = u :: rest ∧ u ≠ 125 := by
  cases h with
  | @named before name between space value after hbefore hname =>
    cases before with
    | nil =>
      cases hname with
      | quoted => exact ⟨34, _, rfl, by decide⟩
    | cons u before =>
      refine ⟨u, _, rfl, ?_⟩
      rintro rfl
      exact absurd (hbefore 125 List.mem_cons_self) (by decide)

theorem Members.head {members : List UInt16} (h : Members members) : ∃ u rest, members = u :: rest ∧ u ≠ 125 := by
  cases h with
  | one h => exact h.head
  | more h =>
    obtain ⟨u, rest, rfl, hne⟩ := h.head
    exact ⟨u, _, List.cons_append, hne⟩

theorem ObjectText.closed {rest : List UInt16} (h : ObjectText (123 :: 125 :: rest)) : Whitespace rest := by
  generalize htext : 123 :: 125 :: rest = text at h
  cases h with
  | @spaced before object after hbefore h hafter =>
    cases before with
    | cons u before =>
      obtain ⟨rfl, -⟩ := List.cons.inj htext
      exact absurd (hbefore 123 List.mem_cons_self) (by decide)
    | nil =>
      cases h with
      | @empty space hspace =>
        cases space with
        | nil =>
          simp only [List.nil_append, List.cons_append, List.cons.injEq, true_and] at htext
          exact htext ▸ hafter
        | cons u space =>
          simp only [List.nil_append, List.cons_append, List.cons.injEq, true_and] at htext
          obtain ⟨rfl, -⟩ := htext
          exact absurd (hspace 125 List.mem_cons_self) (by decide)
      | filled hmembers =>
        obtain ⟨u, more, rfl, hne⟩ := hmembers.head
        simp only [List.nil_append, List.cons_append, List.cons.injEq, true_and] at htext
        exact absurd htext.1.symm hne

end Veryfront.Lib.Json
