import Mathlib.Data.List.TakeWhile
import Veryfront.Lib.Unicode
import Veryfront.Utils.Hex

/-!
# String literals of the language

The grammar of literals in strict code, and a reader that takes one element of a literal after the other. Every text is a
literal in one way at most.
-/

namespace Veryfront.StringLiteral

open Lib

def backslash : Nat := 92

def lineSeparators : List Nat := [0x2028, 0x2029]

def isDecimalDigit (c : Nat) : Bool := 48 ≤ c && c ≤ 57

/-! ## The grammar -/

/-- In single quotes, in double quotes or in backticks. Line separators can stand in quotes from the tenth edition on. -/
inductive Form
  | single (separators : Bool)
  | double (separators : Bool)
  | template
deriving DecidableEq

def Form.quote : Form → Nat
  | .single _ => 39
  | .double _ => 34
  | .template => 96

def Form.isTemplate : Form → Bool
  | .template => true
  | _ => false

def Form.separators : Form → Bool
  | .single separators | .double separators => separators
  | .template => true

theorem Form.quote_cases (form : Form) : form.quote = 39 ∨ form.quote = 34 ∨ form.quote = 96 := by
  cases form with
  | single => exact .inl rfl
  | double => exact .inr (.inl rfl)
  | template => exact .inr (.inr rfl)

def singleEscapes : List (Nat × Nat) := [(98, 8), (102, 12), (110, 10), (114, 13), (116, 9), (118, 11)]

/-- Has a meaning of its own after a backslash. -/
def isEscapeUnit (c : Nat) : Bool :=
  (singleEscapes.lookup c).isSome || isDecimalDigit c || c = 120 || c = 117 || c ∈ [lf, cr] ++ lineSeparators

/-- The text after a backslash, and its value. -/
inductive Escape : Text → Text → Prop
  | single {c v : Nat} (h : singleEscapes.lookup c = some v) : Escape [c] [v]
  | plain {c : Nat} (h : isEscapeUnit c = false) : Escape [c] [c]
  | hex {digits : Text} (length : digits.length = 2) (h : ∀ c ∈ digits, (hexDigit c).isSome = true) :
    Escape (120 :: digits) (unitsOf (parseHex digits))
  | unicode {digits : Text} (length : digits.length = 4) (h : ∀ c ∈ digits, (hexDigit c).isSome = true) :
    Escape (117 :: digits) (unitsOf (parseHex digits))
  | point {digits : Text} (nonempty : digits ≠ []) (h : ∀ c ∈ digits, (hexDigit c).isSome = true)
    (le : parseHex digits ≤ 0x10FFFF) : Escape (117 :: 123 :: digits ++ [125]) (unitsOf (parseHex digits))

/-- A line end. A return before a feed is one with it. -/
inductive LineEnd (rest : Text) : Text → Prop
  | unit {c : Nat} (h : c = lf ∨ c ∈ lineSeparators) : LineEnd rest [c]
  | pair : LineEnd rest [cr, lf]
  | single (h : rest.head? ≠ some lf) : LineEnd rest [cr]

/-- Stands for itself before `rest`. -/
def Form.Bare (form : Form) (c : Nat) (rest : Text) : Prop :=
  c ≠ form.quote ∧ c ≠ backslash ∧ c ≠ cr ∧
    if form.isTemplate then c = 36 → rest.head? ≠ some 123
    else c ≠ lf ∧ (c ∈ lineSeparators → form.separators = true)

inductive Element (form : Form) : Text → Text → Text → Prop
  | bare {c : Nat} {rest : Text} (h : form.Bare c rest) : Element form [c] [c] rest
  | lineEnd {text rest : Text} (isTemplate : form.isTemplate = true) (h : text = [cr] ∧ rest.head? ≠ some lf ∨ text = [cr, lf]) :
    Element form text [lf] rest
  | continuation {text rest : Text} (h : LineEnd rest text) : Element form (backslash :: text) [] rest
  | null {rest : Text} (h : rest.head?.any isDecimalDigit = false) : Element form [backslash, 48] [0] rest
  | escape {text value rest : Text} (h : Escape text value) : Element form (backslash :: text) value rest

/-- What stands between the quotes, and its value. -/
inductive Contents (form : Form) : Text → Text → Prop
  | nil : Contents form [] []
  | cons {text value rest restValue : Text} (h : Element form text value rest) (tail : Contents form rest restValue) :
    Contents form (text ++ rest) (value ++ restValue)

/-! ## The reader -/

/-- The longest text of digits in front, and what follows it. -/
def spanHex (text : Text) : Text × Text :=
  (text.takeWhile fun c => (hexDigit c).isSome, text.dropWhile fun c => (hexDigit c).isSome)

def readHex (count : Nat) (text : Text) : Option (Text × Text) :=
  if count ≤ text.length ∧ (text.take count).all (fun c => (hexDigit c).isSome) then
    some (unitsOf (parseHex (text.take count)), text.drop count)
  else none

def readPoint (text : Text) : Option (Text × Text) :=
  match spanHex text with
  | (digits, 125 :: rest) => if digits ≠ [] ∧ parseHex digits ≤ 0x10FFFF then some (unitsOf (parseHex digits), rest) else none
  | _ => none

/-- After a return. -/
def skipFeed (text : Text) : Text := if text.head? = some lf then text.tail else text

def readEscape : Text → Option (Text × Text)
  | [] => none
  | c :: rest =>
    if c = cr then some ([], skipFeed rest)
    else if c = lf ∨ c ∈ lineSeparators then some ([], rest)
    else
      match singleEscapes.lookup c with
      | some v => some ([v], rest)
      | none =>
        if c = 48 then if rest.head?.any isDecimalDigit then none else some ([0], rest)
        else if isDecimalDigit c then none
        else if c = 120 then readHex 2 rest
        else if c = 117 then if rest.head? = some 123 then readPoint rest.tail else readHex 4 rest
        else some ([c], rest)

/-- The value of the next element, and what follows it. -/
def Form.read (form : Form) : Text → Option (Text × Text)
  | [] => none
  | c :: rest =>
    if c = backslash then readEscape rest
    else if c = form.quote then none
    else if c = cr then if form.isTemplate then some ([lf], skipFeed rest) else none
    else if form.isTemplate then if c = 36 ∧ rest.head? = some 123 then none else some ([c], rest)
    else if c = lf ∨ (c ∈ lineSeparators ∧ form.separators = false) then none
    else some ([c], rest)

variable {form : Form} {text value rest : Text} {c : Nat}

theorem skipFeed_eq (rest : Text) : (rest.head? ≠ some lf ∧ skipFeed rest = rest) ∨ rest = lf :: skipFeed rest := by
  rw [skipFeed]
  split
  · rename_i h
    obtain ⟨tail, rfl⟩ := List.head?_eq_some_iff.mp h
    exact .inr rfl
  · rename_i h
    exact .inl ⟨h, rfl⟩

theorem readHex_eq_some_iff {count : Nat} : readHex count text = some (value, rest) ↔
    ∃ digits, text = digits ++ rest ∧ digits.length = count ∧ (∀ c ∈ digits, (hexDigit c).isSome = true) ∧
      value = unitsOf (parseHex digits) := by
  rw [readHex]
  constructor
  · intro h
    split at h
    · rename_i hdigits
      obtain ⟨rfl, rfl⟩ := Prod.mk.inj (Option.some.inj h)
      exact ⟨text.take count, (List.take_append_drop count text).symm, List.length_take_of_le hdigits.1,
        List.all_eq_true.mp hdigits.2, rfl⟩
    · cases h
  · rintro ⟨digits, rfl, rfl, hall, rfl⟩
    rw [List.take_left, List.drop_left, if_pos ⟨by simp, List.all_eq_true.mpr hall⟩]

theorem spanHex_append {digits : Text} (hdigits : ∀ c ∈ digits, (hexDigit c).isSome = true) (h : (hexDigit c).isSome = false)
    (rest : Text) : spanHex (digits ++ c :: rest) = (digits, c :: rest) := by
  rw [spanHex, List.takeWhile_append_of_pos hdigits, List.dropWhile_append_of_pos hdigits,
    List.takeWhile_cons_of_neg (by simp [h]), List.dropWhile_cons_of_neg (by simp [h]), List.append_nil]

theorem spanHex_eq {digits : Text} (h : spanHex text = (digits, rest)) :
    text = digits ++ rest ∧ ∀ c ∈ digits, (hexDigit c).isSome = true := by
  obtain ⟨rfl, rfl⟩ := Prod.mk.inj h
  refine ⟨List.takeWhile_append_dropWhile.symm, fun c hc => ?_⟩
  exact List.mem_takeWhile_imp (p := fun c => (hexDigit c).isSome) hc

theorem readPoint_eq_some_iff : readPoint text = some (value, rest) ↔
    ∃ digits, text = digits ++ 125 :: rest ∧ digits ≠ [] ∧ (∀ c ∈ digits, (hexDigit c).isSome = true) ∧
      parseHex digits ≤ 0x10FFFF ∧ value = unitsOf (parseHex digits) := by
  rw [readPoint]
  constructor
  · intro h
    split at h
    · rename_i digits after hspan
      split at h
      · rename_i hdigits
        obtain ⟨rfl, rfl⟩ := Prod.mk.inj (Option.some.inj h)
        obtain ⟨htext, hall⟩ := spanHex_eq hspan
        exact ⟨digits, htext, hdigits.1, hall, hdigits.2, rfl⟩
      · cases h
    · cases h
  · rintro ⟨digits, rfl, hne, hall, hle, rfl⟩
    rw [spanHex_append hall (by decide)]
    exact if_pos ⟨hne, hle⟩

inductive Escaped (text value rest : Text) : Prop
  | continuation (h : LineEnd rest text) (value_eq : value = [])
  | null (text_eq : text = [48]) (value_eq : value = [0]) (h : rest.head?.any isDecimalDigit = false)
  | escape (h : Escape text value)

theorem lookup_cases {v : Nat} (h : singleEscapes.lookup c = some v) :
    c = 98 ∨ c = 102 ∨ c = 110 ∨ c = 114 ∨ c = 116 ∨ c = 118 := by
  obtain ⟨before, after, hmem, -⟩ := List.lookup_eq_some_iff.mp h
  have hc : c ∈ singleEscapes.map Prod.fst := by rw [hmem]; simp
  simpa [singleEscapes] using hc

theorem escaped_of_readEscape (h : readEscape text = some (value, rest)) : ∃ e, text = e ++ rest ∧ Escaped e value rest := by
  cases text with
  | nil => cases h
  | cons c text =>
    rw [readEscape] at h
    split at h
    · rename_i hcr
      subst hcr
      obtain ⟨rfl, rfl⟩ := Prod.mk.inj (Option.some.inj h)
      rcases skipFeed_eq text with ⟨hhead, heq⟩ | heq
      · exact ⟨[cr], by rw [heq]; rfl, .continuation (.single (by rwa [heq])) rfl⟩
      · exact ⟨[cr, lf], by rw [heq]; simp [skipFeed], .continuation .pair rfl⟩
    split at h
    · rename_i hunit
      obtain ⟨rfl, rfl⟩ := Prod.mk.inj (Option.some.inj h)
      exact ⟨[c], rfl, .continuation (.unit hunit) rfl⟩
    rename_i hcr hunit
    split at h
    · rename_i v hlookup
      obtain ⟨rfl, rfl⟩ := Prod.mk.inj (Option.some.inj h)
      exact ⟨[c], rfl, .escape (.single hlookup)⟩
    rename_i hlookup
    split at h
    · rename_i hzero
      split at h
      · cases h
      · rename_i hdigit
        obtain ⟨rfl, rfl⟩ := Prod.mk.inj (Option.some.inj h)
        exact ⟨[c], rfl, .null (by rw [hzero]) rfl (Bool.eq_false_of_not_eq_true hdigit)⟩
    split at h
    · cases h
    rename_i hdigit
    split at h
    · rename_i hx
      obtain ⟨digits, rfl, hlength, hall, rfl⟩ := readHex_eq_some_iff.mp h
      exact ⟨120 :: digits, by rw [hx]; rfl, .escape (.hex hlength hall)⟩
    rename_i hx
    split at h
    · rename_i hu
      split at h
      · rename_i hbrace
        obtain ⟨tail, rfl⟩ := List.head?_eq_some_iff.mp hbrace
        obtain ⟨digits, htail, hne, hall, hle, rfl⟩ := readPoint_eq_some_iff.mp h
        rw [List.tail_cons] at htail
        exact ⟨117 :: 123 :: digits ++ [125], by rw [hu, htail]; simp, .escape (.point hne hall hle)⟩
      · obtain ⟨digits, rfl, hlength, hall, rfl⟩ := readHex_eq_some_iff.mp h
        exact ⟨117 :: digits, by rw [hu]; rfl, .escape (.unicode hlength hall)⟩
    · rename_i hu
      obtain ⟨rfl, rfl⟩ := Prod.mk.inj (Option.some.inj h)
      refine ⟨[c], rfl, .escape (.plain ?_)⟩
      simp only [not_or] at hunit
      simp [isEscapeUnit, hlookup, hdigit, hx, hu, hcr, hunit]

theorem isEscapeUnit_eq_false (h : isEscapeUnit c = false) : singleEscapes.lookup c = none ∧ isDecimalDigit c = false ∧ c ≠ 120 ∧
    c ≠ 117 ∧ c ≠ lf ∧ c ≠ cr ∧ c ∉ lineSeparators := by
  simp only [isEscapeUnit, Bool.or_eq_false_iff, Option.isSome_eq_false_iff, Option.isNone_iff_eq_none, decide_eq_false_iff_not,
    List.mem_append, List.mem_cons, List.not_mem_nil, or_false, not_or] at h
  obtain ⟨⟨⟨⟨hlookup, hdigit⟩, hx⟩, hu⟩, ⟨hlf, hcr⟩, hsep⟩ := h
  exact ⟨hlookup, hdigit, hx, hu, hlf, hcr, hsep⟩

theorem readEscape_of_escaped {e : Text} (h : Escaped e value rest) : readEscape (e ++ rest) = some (value, rest) := by
  cases h with
  | continuation h value_eq =>
    subst value_eq
    cases h with
    | @unit c hunit =>
      have hcr : c ≠ cr := by
        rintro rfl
        exact absurd hunit (by decide)
      rw [List.singleton_append, readEscape, if_neg hcr, if_pos hunit]
    | pair => simp [readEscape, skipFeed]
    | single hhead => simp [readEscape, skipFeed, hhead]
  | null text_eq value_eq h =>
    subst text_eq value_eq
    rw [List.singleton_append, readEscape, if_neg (by decide), if_neg (by decide)]
    simp only [show singleEscapes.lookup 48 = none from rfl, h]
    rfl
  | escape h =>
    cases h with
    | @single c v hlookup =>
      have hcases := lookup_cases hlookup
      have hcr : c ≠ cr := by
        rintro rfl
        exact absurd hcases (by decide)
      have hunit : ¬ (c = lf ∨ c ∈ lineSeparators) := by
        rintro hunit
        simp only [lf, lineSeparators, List.mem_cons, List.not_mem_nil, or_false] at hunit
        omega
      rw [List.singleton_append, readEscape, if_neg hcr, if_neg hunit, hlookup]
    | @plain c hplain =>
      obtain ⟨hlookup, hdigit, hx, hu, hlf, hcr, hsep⟩ := isEscapeUnit_eq_false hplain
      have hzero : c ≠ 48 := by
        rintro rfl
        cases hdigit
      rw [List.singleton_append, readEscape, if_neg hcr, if_neg (not_or.mpr ⟨hlf, hsep⟩), hlookup]
      simp only [if_neg hzero, hdigit, if_neg hx, if_neg hu, Bool.false_eq_true, if_false]
    | hex hlength hall =>
      rw [List.cons_append, readEscape, if_neg (by decide), if_neg (by decide)]
      simp only [show singleEscapes.lookup 120 = none from rfl, show isDecimalDigit 120 = false from rfl]
      exact readHex_eq_some_iff.mpr ⟨_, rfl, hlength, hall, rfl⟩
    | @unicode digits hlength hall =>
      have hbrace : (digits ++ rest).head? ≠ some 123 := by
        obtain ⟨d, digits, rfl⟩ := List.exists_cons_of_length_pos (l := digits) (by omega)
        intro hbrace
        obtain rfl := Option.some.inj hbrace
        exact absurd (hall 123 List.mem_cons_self) (by decide)
      rw [List.cons_append, readEscape, if_neg (by decide), if_neg (by decide)]
      simp only [show singleEscapes.lookup 117 = none from rfl, show isDecimalDigit 117 = false from rfl, if_neg hbrace]
      exact readHex_eq_some_iff.mpr ⟨_, rfl, hlength, hall, rfl⟩
    | @point digits hne hall hle =>
      have htext : 117 :: 123 :: digits ++ [125] ++ rest = 117 :: 123 :: (digits ++ 125 :: rest) := by simp
      rw [htext, readEscape, if_neg (by decide), if_neg (by decide)]
      exact readPoint_eq_some_iff.mpr ⟨digits, rfl, hne, hall, hle, rfl⟩

/-! ## Elements -/

theorem Form.quote_ne (form : Form) : form.quote ≠ backslash ∧ form.quote ≠ cr ∧ form.quote ≠ 36 := by
  rcases form.quote_cases with h | h | h <;> rw [h] <;> decide

theorem element_of_escaped (h : Escaped text value rest) : Element form (backslash :: text) value rest := by
  cases h with
  | continuation h value_eq => exact value_eq ▸ .continuation h
  | null text_eq value_eq h => exact text_eq ▸ value_eq ▸ .null h
  | escape h => exact .escape h

theorem read_of_bare (h : form.Bare c rest) : form.read (c :: rest) = some ([c], rest) := by
  obtain ⟨hquote, hbackslash, hcr, h⟩ := h
  rw [Form.read, if_neg hbackslash, if_neg hquote, if_neg hcr]
  split at h
  · rename_i htemplate
    rw [if_pos htemplate, if_neg fun hdollar => h hdollar.1 hdollar.2]
  · rename_i htemplate
    rw [if_neg htemplate, if_neg]
    rintro (hlf | ⟨hmem, hseparators⟩)
    · exact h.1 hlf
    · rw [h.2 hmem] at hseparators
      cases hseparators

theorem read_of_lineEnd (htemplate : form.isTemplate = true) (h : text = [cr] ∧ rest.head? ≠ some lf ∨ text = [cr, lf]) :
    form.read (text ++ rest) = some ([lf], rest) := by
  have hcr : ∀ after, form.read (cr :: after) = some ([lf], skipFeed after) := fun after => by
    rw [Form.read, if_neg (by decide), if_neg (Ne.symm form.quote_ne.2.1), if_pos rfl, if_pos htemplate]
  rcases h with ⟨rfl, hhead⟩ | rfl
  · rw [List.singleton_append, hcr, skipFeed, if_neg hhead]
  · rw [List.cons_append, hcr]
    rfl

theorem read_of_element (h : Element form text value rest) : form.read (text ++ rest) = some (value, rest) := by
  have hescaped {e : Text} (h : Escaped e value rest) : form.read (backslash :: e ++ rest) = some (value, rest) := by
    rw [List.cons_append, Form.read, if_pos rfl]
    exact readEscape_of_escaped h
  cases h with
  | bare h => exact read_of_bare h
  | lineEnd htemplate h => exact read_of_lineEnd htemplate h
  | continuation h => exact hescaped (.continuation h rfl)
  | null h => exact hescaped (.null rfl rfl h)
  | escape h => exact hescaped (.escape h)

theorem element_of_read (h : form.read text = some (value, rest)) : ∃ e, text = e ++ rest ∧ Element form e value rest := by
  cases text with
  | nil => cases h
  | cons c text =>
    rw [Form.read] at h
    split at h
    · rename_i hbackslash
      obtain ⟨e, rfl, he⟩ := escaped_of_readEscape h
      exact ⟨backslash :: e, by rw [hbackslash]; rfl, element_of_escaped he⟩
    rename_i hbackslash
    split at h
    · cases h
    rename_i hquote
    split at h
    · rename_i hcr
      subst hcr
      split at h
      · rename_i htemplate
        obtain ⟨rfl, rfl⟩ := Prod.mk.inj (Option.some.inj h)
        rcases skipFeed_eq text with ⟨hhead, heq⟩ | heq
        · exact ⟨[cr], by rw [heq]; rfl, .lineEnd htemplate (.inl ⟨rfl, by rwa [heq]⟩)⟩
        · exact ⟨[cr, lf], congrArg (cr :: ·) heq, .lineEnd htemplate (.inr rfl)⟩
      · cases h
    rename_i hcr
    split at h
    · rename_i htemplate
      split at h
      · cases h
      · rename_i hdollar
        obtain ⟨rfl, rfl⟩ := Prod.mk.inj (Option.some.inj h)
        refine ⟨[c], rfl, .bare ⟨hquote, hbackslash, hcr, ?_⟩⟩
        rw [if_pos htemplate]
        exact fun hc hbrace => hdollar ⟨hc, hbrace⟩
    · rename_i htemplate
      split at h
      · cases h
      · rename_i hplain
        obtain ⟨rfl, rfl⟩ := Prod.mk.inj (Option.some.inj h)
        refine ⟨[c], rfl, .bare ⟨hquote, hbackslash, hcr, ?_⟩⟩
        rw [if_neg htemplate]
        refine ⟨fun hlf => hplain (.inl hlf), fun hmem => ?_⟩
        cases hseparators : form.separators with
        | true => rfl
        | false => exact absurd (.inr ⟨hmem, hseparators⟩) hplain

theorem Element.ne_nil (h : Element form text value rest) : text ≠ [] := by
  cases h with
  | bare | continuation | null | escape => exact List.cons_ne_nil _ _
  | lineEnd _ h => rcases h with ⟨rfl, -⟩ | rfl <;> exact List.cons_ne_nil _ _

theorem contents_nil_iff : Contents form [] value ↔ value = [] := by
  constructor
  · intro h
    generalize htext : ([] : Text) = text at h
    cases h with
    | nil => rfl
    | cons h _ => exact absurd (List.append_eq_nil_iff.mp htext.symm).1 h.ne_nil
  · rintro rfl
    exact .nil

theorem contents_iff (hne : text ≠ []) :
    Contents form text value ↔ ∃ first after tail, form.read text = some (first, after) ∧ Contents form after tail ∧ value = first ++ tail := by
  constructor
  · intro h
    cases h with
    | nil => exact absurd rfl hne
    | cons h tail => exact ⟨_, _, _, read_of_element h, tail, rfl⟩
  · rintro ⟨first, after, tail, hread, htail, rfl⟩
    obtain ⟨e, rfl, he⟩ := element_of_read hread
    exact .cons he htail

/-! ## What follows an element -/

theorem Element.lookahead {rest' : Text} (h : Element form text value rest)
    (hhead : ∀ c, rest'.head? = some c → rest.head? = some c ∨ (c ≠ 123 ∧ c ≠ lf ∧ isDecimalDigit c = false)) :
    Element form text value rest' := by
  have hne {d : Nat} (hrest : rest.head? ≠ some d) (hd : d = 123 ∨ d = lf) : rest'.head? ≠ some d := by
    intro hc
    rcases hhead d hc with hsame | ⟨hbrace, hfeed, -⟩
    · exact hrest hsame
    · exact hd.elim hbrace hfeed
  cases h with
  | bare h =>
    obtain ⟨hquote, hbackslash, hcr, hmore⟩ := h
    refine .bare ⟨hquote, hbackslash, hcr, ?_⟩
    split
    · rename_i htemplate
      rw [if_pos htemplate] at hmore
      exact fun hdollar => hne (hmore hdollar) (.inl rfl)
    · rename_i htemplate
      rwa [if_neg htemplate] at hmore
  | lineEnd htemplate h => exact .lineEnd htemplate (h.imp_left fun ⟨htext, hfeed⟩ => ⟨htext, hne hfeed (.inr rfl)⟩)
  | continuation h =>
    cases h with
    | unit h => exact .continuation (.unit h)
    | pair => exact .continuation .pair
    | single h => exact .continuation (.single (hne h (.inr rfl)))
  | null h =>
    refine .null ?_
    rw [Option.any_eq_false_iff_get] at h ⊢
    intro hsome
    obtain ⟨c, hc⟩ := Option.isSome_iff_exists.mp hsome
    simp only [hc, Option.get_some]
    rcases hhead c hc with hsame | ⟨-, -, hdigit⟩
    · simpa [hsame] using h
    · exact hdigit
  | escape h => exact .escape h

theorem Contents.append {more moreValue : Text} (h : Contents form text value) (hmore : Contents form more moreValue)
    (hhead : ∀ c, more.head? = some c → c ≠ 123 ∧ c ≠ lf ∧ isDecimalDigit c = false) :
    Contents form (text ++ more) (value ++ moreValue) := by
  induction h with
  | nil => exact hmore
  | @cons text value rest restValue h tail ih =>
    rw [List.append_assoc, List.append_assoc]
    refine .cons (h.lookahead fun c hc => ?_) ih
    cases rest with
    | nil => exact .inr (hhead c hc)
    | cons d rest => exact .inl hc

/-! ## Line separators -/

/-- As before the tenth edition. -/
def Form.narrow : Form → Form
  | .single _ => .single false
  | .double _ => .double false
  | .template => .template

theorem Form.narrow_quote (form : Form) : form.narrow.quote = form.quote := by cases form <;> rfl

theorem Form.narrow_isTemplate (form : Form) : form.narrow.isTemplate = form.isTemplate := by cases form <;> rfl

theorem bare_of_narrow (h : form.narrow.Bare c rest) : form.Bare c rest := by
  cases form with
  | single | double => exact ⟨h.1, h.2.1, h.2.2.1, h.2.2.2.1, fun hmem => absurd (h.2.2.2.2 hmem) Bool.false_ne_true⟩
  | template => exact h

theorem element_of_narrow (h : Element form.narrow text value rest) : Element form text value rest := by
  cases h with
  | bare h => exact .bare (bare_of_narrow h)
  | lineEnd htemplate h => exact .lineEnd (form.narrow_isTemplate ▸ htemplate) h
  | continuation h => exact .continuation h
  | null h => exact .null h
  | escape h => exact .escape h

theorem contents_of_narrow (h : Contents form.narrow text value) : Contents form text value := by
  induction h with
  | nil => exact .nil
  | cons h _ ih => exact .cons (element_of_narrow h) ih

theorem narrow_or_separator (h : Element form text value rest) : Element form.narrow text value rest ∨
    form.isTemplate = false ∧ ∃ c ∈ lineSeparators, text = [c] := by
  cases h with
  | @bare c _ h =>
    cases form with
    | single | double =>
      by_cases hc : c ∈ lineSeparators
      · exact .inr ⟨rfl, c, hc, rfl⟩
      · exact .inl (.bare ⟨h.1, h.2.1, h.2.2.1, h.2.2.2.1, fun hmem => absurd hmem hc⟩)
    | template => exact .inl (.bare h)
  | lineEnd htemplate h => exact .inl (.lineEnd (form.narrow_isTemplate.symm ▸ htemplate) h)
  | continuation h => exact .inl (.continuation h)
  | null h => exact .inl (.null h)
  | escape h => exact .inl (.escape h)

structure Separated (form : Form) (before : Text) (c : Nat) (rest : Text) : Prop where
  quoted : form.isTemplate = false
  separator : c ∈ lineSeparators
  before : ∃ value, Contents form before value
  rest : ∃ value, Contents form rest value

theorem narrow_or_separated (h : Contents form text value) :
    Contents form.narrow text value ∨ ∃ before c rest, text = before ++ c :: rest ∧ Separated form before c rest := by
  induction h with
  | nil => exact .inl .nil
  | @cons text value rest restValue h tail ih =>
    rcases ih with hnarrow | ⟨before, c, after, rfl, hseparated⟩
    · rcases narrow_or_separator h with hfirst | ⟨hquoted, c, hc, rfl⟩
      · exact .inl (.cons hfirst hnarrow)
      · exact .inr ⟨[], c, rest, rfl, hquoted, hc, ⟨[], .nil⟩, ⟨restValue, tail⟩⟩
    · obtain ⟨beforeValue, hbefore⟩ := hseparated.before
      refine .inr ⟨text ++ before, c, after, (List.append_assoc ..).symm, hseparated.quoted, hseparated.separator, ?_, hseparated.rest⟩
      refine ⟨value ++ beforeValue, .cons (h.lookahead fun d hd => .inl ?_) hbefore⟩
      cases before with
      | nil => cases hd
      | cons d before => exact hd

theorem head_of_separator (h : c ∈ lineSeparators) : c ≠ 123 ∧ c ≠ lf ∧ isDecimalDigit c = false := by
  have hall : ∀ d ∈ lineSeparators, d ≠ 123 ∧ d ≠ lf ∧ isDecimalDigit d = false := by decide
  exact hall c h

theorem separator_units (h : c ∈ lineSeparators) (form : Form) : c ≠ backslash ∧ c ≠ form.quote ∧ c ≠ cr ∧ c ≠ lf := by
  have hquote := form.quote_cases
  simp only [lineSeparators, List.mem_cons, List.not_mem_nil, or_false] at h
  refine ⟨?_, by omega, ?_, (head_of_separator (by simpa [lineSeparators] using h)).2.1⟩
  · unfold backslash
    omega
  · unfold cr
    omega

theorem contents_of_separated {before : Text} (hseparators : form.separators = true) (h : Separated form before c rest) :
    ∃ value, Contents form (before ++ c :: rest) value := by
  obtain ⟨beforeValue, hbefore⟩ := h.before
  obtain ⟨restValue, hrest⟩ := h.rest
  obtain ⟨hbackslash, hquote, hcr, hlf⟩ := separator_units h.separator form
  have hbare : form.Bare c rest := by
    refine ⟨hquote, hbackslash, hcr, ?_⟩
    rw [if_neg (by rw [h.quoted]; exact Bool.false_ne_true)]
    exact ⟨hlf, fun _ => hseparators⟩
  refine ⟨_, hbefore.append (.cons (.bare hbare) hrest) fun d hd => ?_⟩
  obtain rfl : c = d := Option.some.inj hd
  exact head_of_separator h.separator

theorem read_narrow_separator (hquoted : form.isTemplate = false) (h : c ∈ lineSeparators) : form.narrow.read (c :: rest) = none := by
  obtain ⟨hbackslash, hquote, hcr, -⟩ := separator_units h form.narrow
  have hseparators : form.narrow.separators = false := by
    cases form with
    | single | double => rfl
    | template => cases hquoted
  rw [Form.read, if_neg hbackslash, if_neg hquote, if_neg hcr,
    if_neg (by rw [form.narrow_isTemplate, hquoted]; exact Bool.false_ne_true), if_pos (.inr ⟨h, hseparators⟩)]

theorem not_narrow_of_separated {before : Text} (h : Separated form before c rest) (value : Text) :
    ¬ Contents form.narrow (before ++ c :: rest) value := by
  obtain ⟨beforeValue, hbefore⟩ := h.before
  induction hbefore generalizing value with
  | nil =>
    intro hnarrow
    obtain ⟨first, after, tail, hread, -⟩ := (contents_iff (List.cons_ne_nil _ _)).mp hnarrow
    rw [read_narrow_separator h.quoted h.separator] at hread
    cases hread
  | @cons text textValue between betweenValue helement htail ih =>
    intro hnarrow
    have hsplit : text ++ between ++ c :: rest = text ++ (between ++ c :: rest) := List.append_assoc ..
    rw [hsplit] at hnarrow
    have hne : text ++ (between ++ c :: rest) ≠ [] := List.append_ne_nil_of_left_ne_nil helement.ne_nil _
    obtain ⟨first, after, tail, hread, hafter, -⟩ := (contents_iff hne).mp hnarrow
    obtain ⟨e, htext, he⟩ := element_of_read hread
    -- both grammars have the same first element
    have hwide : Element _ text textValue (between ++ c :: rest) := helement.lookahead fun d hd => by
      cases between with
      | nil =>
        obtain rfl : c = d := Option.some.inj hd
        exact .inr (head_of_separator h.separator)
      | cons d' between => exact .inl hd
    have hfirst := read_of_element hwide
    rw [htext, read_of_element (element_of_narrow he)] at hfirst
    obtain ⟨-, rfl⟩ := Prod.mk.inj (Option.some.inj hfirst)
    exact ih ⟨h.quoted, h.separator, ⟨betweenValue, htail⟩, h.rest⟩ tail hafter

end Veryfront.StringLiteral
