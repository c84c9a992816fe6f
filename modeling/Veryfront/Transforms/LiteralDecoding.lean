import Veryfront.Transforms.LiteralSpecifiers

/-!
# Literals are decoded exactly

The search for the closing quote and the decoder go through the elements of the grammar, but for line separators in quotes,
which the decoder takes for line ends.
-/

namespace Veryfront.Transforms

open Lib StringLiteral

/-- The literals that are decoded: no line separator stands in quotes. -/
def narrowForms : List Form := [.single false, .double false, .template]

variable {form : Form} {after : Text}

/-! ## The closing quote -/

def closing (form : Form) (t : Text) : Option Nat := if form.isTemplate then closingBacktick t else closingQuote form.quote t

theorem closing_pair (c : Nat) (t : Text) : closing form (92 :: c :: t) = (closing form t).map (· + 2) := by
  rw [closing, closing]
  split
  · rw [closingBacktick, if_pos rfl]
  · rw [closingQuote, if_pos rfl]

theorem closing_quote (t : Text) : closing form (form.quote :: t) = some 0 := by
  have hbackslash : form.quote ≠ 92 := form.quote_ne.1
  have hdollar := form.quote_ne.2.2
  rw [closing]
  split
  · rename_i htemplate
    have hquote : form.quote = 96 := by
      cases form with
      | template => rfl
      | single | double => cases htemplate
    cases t with
    | nil => rw [closingBacktick, if_pos hquote]
    | cons next t => rw [closingBacktick, if_neg hbackslash, if_neg fun h => hdollar h.1, if_pos hquote]
  · cases t with
    | nil => rw [closingQuote, if_pos ⟨hbackslash, rfl⟩]
    | cons next t => rw [closingQuote, if_neg hbackslash, if_pos rfl]

variable {c : Nat} {t : Text}

theorem closing_unit (hbackslash : c ≠ 92) (hquote : c ≠ form.quote)
    (hdollar : form.isTemplate = true → c = 36 → t.head? ≠ some 123) : closing form (c :: t) = (closing form t).map (· + 1) := by
  rw [closing, closing]
  split
  · rename_i htemplate
    have hbacktick : c ≠ 96 := by
      cases form with
      | template => exact hquote
      | single | double => cases htemplate
    cases t with
    | nil => simp only [closingBacktick, if_neg hbacktick, Option.map_none]
    | cons next t =>
      rw [closingBacktick, if_neg hbackslash, if_neg fun h => hdollar htemplate h.1 (congrArg some h.2), if_neg hbacktick]
  · cases t with
    | nil => simp only [closingQuote, hquote, and_false, if_false, Option.map_none]
    | cons next t => rw [closingQuote, if_neg hbackslash, if_neg hquote]

theorem closing_units {units : Text} (h : ∀ c ∈ units, c ≠ 92 ∧ c ≠ form.quote ∧ c ≠ 36) (t : Text) :
    closing form (units ++ t) = (closing form t).map (· + units.length) := by
  induction units with
  | nil => exact Option.map_id'.symm ▸ rfl
  | cons c units ih =>
    obtain ⟨hbackslash, hquote, hdollar⟩ := h c List.mem_cons_self
    rw [List.cons_append, closing_unit hbackslash hquote fun _ hc => absurd hc hdollar,
      ih fun d hd => h d (List.mem_cons_of_mem _ hd), Option.map_map]
    rfl

theorem hexDigit_units {digits : Text} (h : ∀ c ∈ digits, (hexDigit c).isSome = true) :
    ∀ c ∈ digits, c ≠ 92 ∧ c ≠ form.quote ∧ c ≠ 36 := by
  intro c hc
  have hdigit := h c hc
  refine ⟨?_, ?_, ?_⟩
  · rintro rfl
    exact absurd hdigit (by decide)
  · rintro rfl
    rcases form.quote_cases with hquote | hquote | hquote <;> rw [hquote] at hdigit <;> exact absurd hdigit (by decide)
  · rintro rfl
    exact absurd hdigit (by decide)

theorem closing_escape {units : Text} (c : Nat) (h : ∀ d ∈ units, d ≠ 92 ∧ d ≠ form.quote ∧ d ≠ 36) (t : Text) :
    closing form (92 :: (c :: units) ++ t) = (closing form t).map (· + (units.length + 2)) := by
  rw [List.cons_append, List.cons_append, closing_pair, closing_units h, Option.map_map]
  rfl

theorem closing_element {text value rest : Text} (h : Element form text value rest) :
    closing form (text ++ (rest ++ form.quote :: after)) = (closing form (rest ++ form.quote :: after)).map (· + text.length) := by
  have hquote := form.quote_cases
  have hnone : ∀ d ∈ ([] : Text), d ≠ 92 ∧ d ≠ form.quote ∧ d ≠ 36 := nofun
  cases h with
  | @bare c _ h =>
    obtain ⟨hc, hbackslash, -, hmore⟩ := h
    refine closing_unit hbackslash hc fun htemplate hdollar => ?_
    rw [if_pos htemplate] at hmore
    cases rest with
    | nil =>
      intro hbrace
      have := Option.some.inj hbrace
      omega
    | cons d rest => exact hmore hdollar
  | lineEnd htemplate h =>
    refine closing_units (fun c hc => ?_) _
    have hmem : c = cr ∨ c = lf := by
      rcases h with ⟨rfl, -⟩ | rfl
      · exact .inl (List.mem_singleton.mp hc)
      · simpa using hc
    rcases hmem with rfl | rfl
    · exact ⟨by decide, Ne.symm form.quote_ne.2.1, by decide⟩
    · refine ⟨by decide, ?_, by decide⟩
      rcases hquote with h | h | h <;> rw [h] <;> decide
  | continuation h =>
    cases h with
    | unit h => exact closing_escape _ hnone _
    | pair =>
      have hfeed : ∀ c ∈ [lf], c ≠ 92 ∧ c ≠ form.quote ∧ c ≠ 36 := by
        intro c hc
        obtain rfl := List.mem_singleton.mp hc
        refine ⟨by decide, ?_, by decide⟩
        rcases hquote with h | h | h <;> rw [h] <;> decide
      exact closing_escape cr hfeed _
    | single h => exact closing_escape _ hnone _
  | null h => exact closing_escape 48 hnone _
  | escape h =>
    cases h with
    | single h => exact closing_escape _ hnone _
    | plain h => exact closing_escape _ hnone _
    | hex length h => exact closing_escape 120 (hexDigit_units h) _
    | unicode length h => exact closing_escape 117 (hexDigit_units h) _
    | @point digits _ h _ =>
      have hunits : ∀ c ∈ 123 :: digits ++ [125], c ≠ 92 ∧ c ≠ form.quote ∧ c ≠ 36 := by
        intro c hc
        rw [List.mem_append, List.mem_cons, List.mem_singleton] at hc
        rcases hc with (rfl | hc) | rfl
        · exact ⟨by decide, by omega, by decide⟩
        · exact hexDigit_units h c hc
        · exact ⟨by decide, by omega, by decide⟩
      exact closing_escape 117 hunits _

theorem closing_contents {text value : Text} (h : Contents form text value) :
    closing form (text ++ form.quote :: after) = some text.length := by
  induction h with
  | nil => exact closing_quote after
  | @cons text value rest restValue h tail ih =>
    rw [List.append_assoc, closing_element h, ih, Option.map_some, List.length_append, Nat.add_comm]

/-! ## Digits -/

def hexFrom (value : Nat) (digits : Text) : Nat := digits.foldl (fun n c => 16 * n + (hexDigit c).getD 0) value

/-- What may follow the contents of a literal. -/
structure Ends (c : Nat) : Prop where
  hex : hexDigit c = none
  decimal : isDecimalDigit c = false
  brace : c ≠ 123
  closing : c ≠ 125
  feed : c ≠ lf

theorem ends_quote (form : Form) : Ends form.quote := by
  rcases form.quote_cases with h | h | h <;> rw [h] <;> exact ⟨rfl, rfl, by decide, by decide, by decide⟩

theorem decodeHexEscape_eq (hc : hexDigit c = none) (length value : Nat) (t : Text) :
    decodeHexEscape length value (t ++ c :: after) =
      if length ≤ t.length ∧ (t.take length).all (fun d => (hexDigit d).isSome) then some (hexFrom value (t.take length)) else none := by
  induction length generalizing value t with
  | zero =>
    rw [decodeHexEscape, if_pos (by simp), List.take_zero]
    rfl
  | succ length ih =>
    cases t with
    | nil =>
      rw [if_neg (by simp), decodeHexEscape]
      simp [hexDigitValue, hc]
    | cons d t =>
      rw [decodeHexEscape]
      simp only [List.cons_append, List.head?_cons, hexDigitValue, Option.bind_some, List.tail_cons]
      cases hd : hexDigit d with
      | none =>
        rw [if_neg (by simp [hd])]
        rfl
      | some digit =>
        simp only [Option.bind_eq_bind, Option.bind_some, ih, List.length_cons, List.take_succ_cons, List.all_cons, hd,
          Option.isSome_some, Bool.true_and, Nat.add_le_add_iff_right]
        rw [hexFrom, hexFrom, List.foldl_cons, hd, Option.getD_some, Nat.mul_comm]

theorem bracedDigits_eq (value digitCount : Nat) (t : Text) :
    bracedDigits t.length value digitCount (t ++ after) =
      if (spanHex t).2.head?.all (· = 125) then .ok (hexFrom value (spanHex t).1, digitCount + (spanHex t).1.length)
      else invalidEscapedSpecifier := by
  induction t generalizing value digitCount with
  | nil => rfl
  | cons d t ih =>
    rw [List.length_cons, bracedDigits]
    simp only [List.cons_append, List.head?_cons, Option.some.injEq, List.tail_cons, hexDigitValue, Option.bind_some]
    split
    · rename_i hbrace
      subst hbrace
      rfl
    · rename_i hbrace
      cases hd : hexDigit d with
      | none =>
        have hspan : spanHex (d :: t) = ([], d :: t) := by
          rw [spanHex, List.takeWhile_cons_of_neg (by simp [hd]), List.dropWhile_cons_of_neg (by simp [hd])]
        rw [hspan, if_neg (by simpa using hbrace)]
      | some digit =>
        have hspan : spanHex (d :: t) = (d :: (spanHex t).1, (spanHex t).2) := by
          rw [spanHex, List.takeWhile_cons_of_pos (by simp [hd]), List.dropWhile_cons_of_pos (by simp [hd])]
          rfl
        simp only [hspan, ih, List.length_cons]
        rw [hexFrom, hexFrom, List.foldl_cons, hd, Option.getD_some, Nat.mul_comm, Nat.add_assoc, Nat.add_comm 1]

/-! ## One step -/

/-- What a step gives when the reader gives this. -/
def stepOf (n : Nat) : Option (Text × Text) → Append
  | some (value, rest) => .ok (value, n - rest.length)
  | none => invalidEscapedSpecifier

theorem head?_any {p : Nat → Bool} (hc : p c = false) (t : Text) : (t ++ c :: after).head?.any p = t.head?.any p := by
  cases t with
  | nil => exact hc
  | cons => rfl

theorem getElem?_two (a b : Nat) (t : Text) : (a :: b :: t)[2]? = t.head? := by
  rw [List.head?_eq_getElem?]
  rfl

theorem head?_eq_append {d : Nat} (hd : c ≠ d) : (t ++ c :: after).head? = some d ↔ t.head? = some d := by
  cases t with
  | nil => simp [hd]
  | cons => rfl

theorem length_skipFeed {n : Nat} (t : Text) : n + t.length - (skipFeed t).length = if t.head? = some lf then n + 1 else n := by
  rw [skipFeed]
  split
  · rename_i h
    obtain ⟨tail, rfl⟩ := List.head?_eq_some_iff.mp h
    rw [List.tail_cons, List.length_cons]
    omega
  · omega

theorem hexEscape_eq (hc : Ends c) (length : Nat) (t : Text) :
    (match decodeHexEscape length 0 (t ++ c :: after) with
      | none => invalidEscapedSpecifier
      | some value => if t.length + 2 < length + 2 then invalidEscapedSpecifier else .ok (unitsOf value, length + 2) : Append) =
      stepOf (t.length + 2) (readHex length t) := by
  rw [decodeHexEscape_eq hc.hex, readHex]
  by_cases h : length ≤ t.length ∧ (t.take length).all fun d => (hexDigit d).isSome
  · have hmoved : t.length + 2 - (t.drop length).length = length + 2 := by
      rw [List.length_drop]
      omega
    rw [if_pos h, if_pos h]
    simp only [stepOf, hmoved]
    rw [if_neg (by omega)]
    rfl
  · rw [if_neg h, if_neg h]
    rfl

theorem getElem?_braced (digits : Text) (d : Nat) (rest : Text) :
    (92 :: 117 :: 123 :: (digits ++ d :: rest))[3 + digits.length]? = some d := by
  rw [Nat.add_comm]
  simp

theorem appendUnicodeLiteralEscape_eq (hc : Ends c) (t : Text) :
    appendUnicodeLiteralEscape (t.length + 2) (92 :: 117 :: (t ++ c :: after)) =
      stepOf (t.length + 2) (if t.head? = some 123 then readPoint t.tail else readHex 4 t) := by
  rw [appendUnicodeLiteralEscape, getElem?_two]
  simp only [head?_eq_append hc.brace]
  split
  · rename_i hbrace
    obtain ⟨t, rfl⟩ := List.head?_eq_some_iff.mp hbrace
    have hroom : (123 :: t).length + 2 - 3 = t.length := by rw [List.length_cons]; omega
    have hdrop : (92 :: 117 :: (123 :: t ++ c :: after)).drop 3 = t ++ c :: after := rfl
    rw [hroom, hdrop, bracedDigits_eq, List.tail_cons]
    rcases hspan : spanHex t with ⟨digits, rest⟩
    obtain ⟨rfl, -⟩ := spanHex_eq hspan
    cases rest with
    | nil =>
      have hread : readPoint (digits ++ []) = none := by rw [readPoint, hspan]
      have hquote := getElem?_braced digits c after
      rw [hread]
      simp only [List.append_nil, List.head?_nil, Option.all_none, if_true, Nat.zero_add, List.cons_append]
      change (if digits.length = 0 ∨ (92 :: 117 :: 123 :: (digits ++ c :: after))[3 + digits.length]? ≠ some 125 ∨ _ then _ else _) = _
      rw [hquote, if_pos (.inr (.inl fun h => hc.closing (Option.some.inj h)))]
      rfl
    | cons d rest =>
      by_cases hd : d = 125
      · subst hd
        have hread : readPoint (digits ++ 125 :: rest) =
            if digits ≠ [] ∧ parseHex digits ≤ 0x10FFFF then some (unitsOf (parseHex digits), rest) else none := by
          rw [readPoint, hspan]
          rfl
        have hclosing := getElem?_braced digits 125 (rest ++ c :: after)
        rw [hread]
        simp only [List.head?_cons, Option.all_some, decide_true, if_true, Nat.zero_add, List.cons_append, List.append_assoc]
        change (if digits.length = 0 ∨ (92 :: 117 :: 123 :: (digits ++ 125 :: (rest ++ c :: after)))[3 + digits.length]? ≠ some 125 ∨
          hexFrom 0 digits > 0x10FFFF then _ else _) = _
        rw [hclosing]
        by_cases hvalid : digits ≠ [] ∧ parseHex digits ≤ 0x10FFFF
        · have hlength := List.length_pos_iff.mpr hvalid.1
          have hvalue : hexFrom 0 digits ≤ 0x10FFFF := hvalid.2
          have hmoved : (123 :: (digits ++ 125 :: rest)).length + 2 - rest.length = 3 + digits.length + 1 := by
            simp only [List.length_cons, List.length_append]
            omega
          rw [if_pos hvalid, if_neg (by simp only [ne_eq, not_true_eq_false, false_or]; omega)]
          simp only [stepOf, hmoved]
          rfl
        · rw [if_neg hvalid, if_pos]
          · rfl
          · rw [not_and_or, not_not, Nat.not_le] at hvalid
            exact hvalid.imp List.length_eq_zero_iff.mpr .inr
      · have hread : readPoint (digits ++ d :: rest) = none := by
          rw [readPoint, hspan]
          split
          · rename_i heq
            exact absurd (List.cons.inj (Prod.mk.inj heq).2).1 hd
          · rfl
        rw [hread]
        simp only [List.head?_cons, Option.all_some, decide_eq_true_eq, if_neg hd]
        rfl
  · exact hexEscape_eq hc 4 t

/-! ## The decoder -/

theorem isLineTerminator_iff : isLineTerminator c = true ↔ c = cr ∨ c = lf ∨ c ∈ lineSeparators := by
  simp [isLineTerminator, lineSeparators]

theorem appendLiteralEscape_eq (hc : Ends c) (t : Text) :
    appendLiteralEscape (t.length + 1) (92 :: (t ++ c :: after)) = stepOf (t.length + 1) (readEscape t) := by
  cases t with
  | nil => rfl
  | cons e t =>
    have hmoved : (e :: t).length + 1 - t.length = 2 := by rw [List.length_cons]; omega
    rw [List.cons_append, appendLiteralEscape]
    simp only [List.getElem?_cons_succ, List.getElem?_cons_zero]
    rw [if_neg (by rw [List.length_cons]; omega), readEscape]
    by_cases hcr : e = cr
    · subst hcr
      have hlength := length_skipFeed (n := 2) t
      rw [if_pos (isLineTerminator_iff.mpr (.inl rfl)), if_pos rfl]
      simp only [← List.head?_eq_getElem?, head?_eq_append hc.feed, true_and, stepOf, List.length_cons]
      rw [Nat.add_comm t.length, Nat.add_comm, ← Nat.add_assoc, hlength]
    rw [if_neg hcr]
    by_cases hunit : e = lf ∨ e ∈ lineSeparators
    · rw [if_pos (isLineTerminator_iff.mpr (.inr hunit)), if_pos hunit, if_neg fun h => hcr h.1]
      simp only [stepOf, hmoved]
    rw [if_neg fun h => (isLineTerminator_iff.mp h).elim hcr hunit, if_neg hunit]
    have hsame : simpleEscapes = singleEscapes := rfl
    rw [hsame]
    cases hlookup : singleEscapes.lookup e with
    | some v => simp only [stepOf, hmoved]
    | none =>
      simp only
      by_cases hzero : e = 48
      · have hnext : ((t ++ c :: after)[0]?.any fun d => 48 ≤ d && d ≤ 57) = t.head?.any isDecimalDigit := by
          rw [← List.head?_eq_getElem?]
          exact head?_any hc.decimal t
        rw [if_pos hzero, if_pos hzero]
        simp only [hnext]
        split
        · rfl
        · simp only [stepOf, hmoved]
      rw [if_neg hzero, if_neg hzero]
      have hdigit : (49 ≤ e ∧ e ≤ 57) ↔ isDecimalDigit e = true := by
        simp only [isDecimalDigit, Bool.and_eq_true, decide_eq_true_eq]
        omega
      simp only [hdigit]
      by_cases hdecimal : isDecimalDigit e = true
      · rw [if_pos hdecimal, if_pos hdecimal]
        rfl
      rw [if_neg hdecimal, if_neg hdecimal]
      by_cases hx : e = 120
      · rw [if_pos hx, if_pos hx]
        exact hexEscape_eq hc 2 t
      rw [if_neg hx, if_neg hx]
      by_cases hu : e = 117
      · subst hu
        rw [if_pos rfl, if_pos rfl]
        exact appendUnicodeLiteralEscape_eq hc t
      · rw [if_neg hu, if_neg hu]
        simp only [stepOf, hmoved]

theorem appendLiteral_eq (hform : form ∈ narrowForms) (hquote : c ≠ form.quote)
    (hdollar : form.isTemplate = true → c = 36 → t.head? ≠ some 123) :
    appendLiteral form.isTemplate (t.length + 1) (c :: (t ++ form.quote :: after)) = stepOf (t.length + 1) (form.read (c :: t)) := by
  rw [appendLiteral, Form.read]
  simp only [List.head?_cons]
  by_cases hbackslash : c = 92
  · subst hbackslash
    rw [if_neg (by simp), if_pos (show 92 = backslash from rfl)]
    exact appendLiteralEscape_eq (ends_quote form) t
  rw [if_pos hbackslash, if_neg (show c ≠ backslash from hbackslash), if_neg hquote, appendLiteralCharacter]
  by_cases hcr : c = cr
  · subst hcr
    have hlength := length_skipFeed (n := 1) t
    rw [if_pos (isLineTerminator_iff.mpr (.inl rfl)), if_pos rfl]
    cases form.isTemplate with
    | false => rfl
    | true =>
      simp only [Bool.not_true, Bool.false_eq_true, if_false, if_true, List.getElem?_cons_succ, ← List.head?_eq_getElem?,
        head?_eq_append (ends_quote form).feed, stepOf]
      rw [Nat.add_comm t.length, hlength]
  have hone : t.length + 1 - t.length = 1 := Nat.add_sub_cancel_left ..
  rw [if_neg hcr]
  by_cases htemplate : form.isTemplate = true
  · have hplain : ¬(c = 36 ∧ t.head? = some 123) := fun h => hdollar htemplate h.1 h.2
    simp only [htemplate, if_true, if_neg hplain, Bool.not_true, Bool.false_eq_true, if_false, if_neg hcr, ite_self, stepOf, hone]
  · have hnarrow : form.separators = false := by
      simp only [narrowForms, List.mem_cons, List.not_mem_nil, or_false] at hform
      rcases hform with rfl | rfl | rfl
      · rfl
      · rfl
      · exact absurd rfl htemplate
    have hfalse : form.isTemplate = false := Bool.eq_false_of_not_eq_true htemplate
    simp only [hfalse, hnarrow, and_true, isLineTerminator_iff, hcr, false_or, Bool.false_eq_true, if_false, Bool.not_false, if_true]
    split
    · rfl
    · simp only [stepOf, hone]

theorem decodeFrom_zero (allowLineTerminators : Bool) (fuel : Nat) (t : Text) :
    decodeFrom allowLineTerminators fuel 0 t = .ok [] := by
  cases fuel with
  | zero => rfl
  | succ fuel => rw [decodeFrom, if_pos rfl]

theorem head_of_closing {length : Nat} (h : closing form (c :: t) = some (length + 1)) :
    c ≠ form.quote ∧ (form.isTemplate = true → c = 36 → t.head? ≠ some 123) := by
  constructor
  · rintro rfl
    rw [closing_quote] at h
    cases h
  · rintro htemplate rfl hbrace
    obtain ⟨rest, rfl⟩ := List.head?_eq_some_iff.mp hbrace
    rw [closing, if_pos htemplate, closingBacktick] at h
    cases h

theorem decodeFrom_eq (hform : form ∈ narrowForms) (hclosing : closing form (t ++ form.quote :: after) = some t.length)
    {fuel : Nat} (hfuel : t.length ≤ fuel) {value : Text} :
    decodeFrom form.isTemplate fuel t.length (t ++ form.quote :: after) = .ok value ↔ Contents form t value := by
  induction fuel generalizing t value with
  | zero =>
    obtain rfl := List.length_eq_zero_iff.mp (Nat.le_zero.mp hfuel)
    rw [contents_nil_iff, List.length_nil, decodeFrom_zero, Except.ok.injEq, eq_comm]
  | succ fuel ih =>
    cases t with
    | nil => rw [contents_nil_iff, List.length_nil, decodeFrom_zero, Except.ok.injEq, eq_comm]
    | cons c t =>
      obtain ⟨hquote, hdollar⟩ := head_of_closing hclosing
      have hdollar' : form.isTemplate = true → c = 36 → t.head? ≠ some 123 := by
        intro htemplate hc hbrace
        obtain ⟨rest, rfl⟩ := List.head?_eq_some_iff.mp hbrace
        exact hdollar htemplate hc rfl
      rw [List.cons_append, List.length_cons, decodeFrom, if_neg (Nat.succ_ne_zero _), appendLiteral_eq hform hquote hdollar',
        contents_iff (List.cons_ne_nil c t)]
      cases hread : form.read (c :: t) with
      | none =>
        constructor
        · intro h
          cases h
        · rintro ⟨_, _, _, h, -⟩
          cases h
      | some result =>
        obtain ⟨first, rest⟩ := result
        obtain ⟨e, htext, he⟩ := element_of_read hread
        have hlength : t.length + 1 = e.length + rest.length := by rw [← List.length_cons (a := c), htext, List.length_append]
        have hrest : closing form (rest ++ form.quote :: after) = some rest.length := by
          rw [htext, List.append_assoc, closing_element he, List.length_append, Option.map_eq_some_iff] at hclosing
          obtain ⟨n, hn, heq⟩ := hclosing
          rw [hn]
          exact congrArg some (by omega)
        have hmoved : t.length + 1 - rest.length = e.length := by omega
        have hdrop : (c :: (t ++ form.quote :: after)).drop e.length = rest ++ form.quote :: after := by
          rw [← List.cons_append, htext, List.append_assoc, List.drop_left]
        have hleft : t.length + 1 - e.length = rest.length := by omega
        have hpos := List.length_pos_iff.mpr he.ne_nil
        have hfuel' : rest.length ≤ fuel := by rw [List.length_cons] at hfuel; omega
        simp only [stepOf, hmoved]
        change (decodeFrom form.isTemplate fuel (t.length + 1 - e.length) ((c :: (t ++ form.quote :: after)).drop e.length)).bind _ = _ ↔ _
        rw [hleft, hdrop]
        constructor
        · intro h
          cases hdecode : decodeFrom form.isTemplate fuel rest.length (rest ++ form.quote :: after) with
          | error error =>
            rw [hdecode] at h
            cases h
          | ok tail =>
            rw [hdecode] at h
            exact ⟨first, rest, tail, rfl, (ih hrest hfuel').mp hdecode, (Except.ok.inj h).symm⟩
        · rintro ⟨first', rest', tail, hsame, hcontents, rfl⟩
          obtain ⟨rfl, rfl⟩ := Prod.mk.inj (Option.some.inj hsame)
          rw [(ih hrest hfuel').mpr hcontents]
          rfl

/-! ## Literals in a source -/

/-- A literal of one of these forms that starts at an offset, and its value. -/
def LiteralAt (forms : List Form) (source : Text) (index : Nat) (literal : LiteralSpecifier) : Prop :=
  ∃ form ∈ forms, ∃ contents rest, source.drop index = form.quote :: (contents ++ form.quote :: rest) ∧
    Contents form contents literal.specifier ∧ literal.end_ = index + contents.length + 2

def literalForms : List Form := [.single true, .double true, .template]

def ReadExactly (source : Text) (index : Nat) : Prop :=
  ∀ literal, readLiteralSpecifier source index = .ok (some literal) ↔ LiteralAt literalForms source index literal

/-- A literal in quotes stands at an offset that has a line separator between two of its elements. -/
def SeparatorInQuotes (source : Text) (index : Nat) : Prop :=
  ∃ form ∈ literalForms, ∃ before c after rest, source.drop index = form.quote :: (before ++ c :: after ++ form.quote :: rest) ∧
    Separated form before c after

theorem closing_eq_some {k : Nat} (h : closing form t = some k) :
    ∃ contents rest, t = contents ++ form.quote :: rest ∧ contents.length = k := by
  induction hn : t.length using Nat.strong_induction_on generalizing t k with
  | h n ih =>
    have hmore {front rest : Text} {step : Nat} (hfront : front.length = step) (hpos : 0 < step)
        (hlength : (front ++ rest).length = n) (hrest : (closing form rest).map (· + step) = some k) :
        ∃ contents after, front ++ rest = contents ++ form.quote :: after ∧ contents.length = k := by
      obtain ⟨k', hk', rfl⟩ := Option.map_eq_some_iff.mp hrest
      obtain ⟨contents, after, rfl, rfl⟩ := ih rest.length (by rw [← hlength, List.length_append]; omega) hk' rfl
      exact ⟨front ++ contents, after, (List.append_assoc ..).symm, by rw [List.length_append]; omega⟩
    cases t with
    | nil => rw [closing, closingBacktick, closingQuote, ite_self] at h; cases h
    | cons c t =>
      by_cases hquote : c = form.quote
      · subst hquote
        rw [closing_quote] at h
        exact ⟨[], t, rfl, Option.some.inj h⟩
      by_cases hbackslash : c = 92
      · subst hbackslash
        cases t with
        | nil =>
          simp [closing, closingBacktick, closingQuote] at h
        | cons next t =>
          rw [closing_pair] at h
          exact @hmore [92, next] t _ rfl Nat.two_pos hn h
      by_cases hdollar : form.isTemplate = true → c = 36 → t.head? ≠ some 123
      · rw [closing_unit hbackslash hquote hdollar] at h
        exact @hmore [c] t _ rfl Nat.one_pos hn h
      · simp only [Classical.not_imp, not_not] at hdollar
        obtain ⟨htemplate, rfl, hbrace⟩ := hdollar
        obtain ⟨rest, rfl⟩ := List.head?_eq_some_iff.mp hbrace
        rw [closing, if_pos htemplate, closingBacktick] at h
        cases h

variable {source : Text}

theorem drop_succ_of_drop {index : Nat} (h : source.drop index = c :: t) :
    source[index]? = some c ∧ source.drop (index + 1) = t := by
  constructor
  · rw [← List.head?_drop, h]
    rfl
  · rw [← List.tail_drop, h]
    rfl

theorem readLiteralSpecifier_eq (hform : form ∈ narrowForms) {index : Nat}
    (h : source.drop index = form.quote :: t) : readLiteralSpecifier source index =
      match closing form t with
      | none => .ok none
      | some k => (decodeFrom form.isTemplate k k t).map fun specifier => some ⟨index + 1 + k + 1, specifier⟩ := by
  obtain ⟨hget, hdrop⟩ := drop_succ_of_drop h
  have hlength (k : Nat) : index + 1 + k - (index + 1) = k := Nat.add_sub_cancel_left ..
  have hdone (allow : Bool) (k : Nat) : (do
      let specifier ← decodeLiteralContents source (index + 1) (index + 1 + k) allow
      return some (LiteralSpecifier.mk (index + 1 + k + 1) specifier)) =
      (decodeFrom allow k k t).map fun specifier => some ⟨index + 1 + k + 1, specifier⟩ := by
    rw [decodeLiteralContents, hlength, hdrop]
    rfl
  simp only [narrowForms, List.mem_cons, List.not_mem_nil, or_false] at hform
  rw [readLiteralSpecifier]
  rcases hform with rfl | rfl | rfl
  · simp only [hget, Form.quote, closing, Form.isTemplate, readQuotedSpecifier, hdrop, Bool.false_eq_true, if_false]
    cases closingQuote 39 t with
    | none => rfl
    | some k => exact hdone false k
  · simp only [hget, Form.quote, closing, Form.isTemplate, readQuotedSpecifier, hdrop, Bool.false_eq_true, if_false]
    cases closingQuote 34 t with
    | none => rfl
    | some k => exact hdone false k
  · simp only [hget, Form.quote, closing, Form.isTemplate, hdrop, if_true]
    cases closingBacktick t with
    | none => rfl
    | some k => exact hdone true k

theorem quote_of_read {index : Nat} {literal : LiteralSpecifier}
    (h : readLiteralSpecifier source index = .ok (some literal)) : ∃ form ∈ narrowForms, ∃ t, source.drop index = form.quote :: t := by
  rw [readLiteralSpecifier] at h
  cases hget : source[index]? with
  | none =>
    rw [hget] at h
    cases h
  | some quote =>
    obtain ⟨hindex, rfl⟩ := List.getElem?_eq_some_iff.mp hget
    have hdrop := List.drop_eq_getElem_cons hindex
    rw [hget] at h
    simp only at h
    split at h
    · rename_i hquote
      rcases hquote with hdouble | hsingle
      · exact ⟨.double false, by simp [narrowForms], _, hdouble ▸ hdrop⟩
      · exact ⟨.single false, by simp [narrowForms], _, hsingle ▸ hdrop⟩
    · split at h
      · cases h
      · rename_i hbacktick
        exact ⟨.template, by simp [narrowForms], _, not_not.mp hbacktick ▸ hdrop⟩

theorem readLiteralSpecifier_iff {index : Nat} {literal : LiteralSpecifier} :
    readLiteralSpecifier source index = .ok (some literal) ↔ LiteralAt narrowForms source index literal := by
  constructor
  · intro h
    obtain ⟨form, hform, t, ht⟩ := quote_of_read h
    rw [readLiteralSpecifier_eq hform ht] at h
    cases hclosing : closing form t with
    | none =>
      rw [hclosing] at h
      cases h
    | some k =>
      obtain ⟨contents, rest, rfl, rfl⟩ := closing_eq_some hclosing
      rw [hclosing] at h
      simp only at h
      cases hdecode : decodeFrom form.isTemplate contents.length contents.length (contents ++ form.quote :: rest) with
      | error error =>
        rw [hdecode] at h
        cases h
      | ok specifier =>
        rw [hdecode] at h
        obtain rfl := Option.some.inj (Except.ok.inj h)
        exact ⟨form, hform, contents, rest, ht, (decodeFrom_eq hform hclosing le_rfl).mp hdecode, by simp only; omega⟩
  · rintro ⟨form, hform, contents, rest, ht, hcontents, hend⟩
    have hclosing : closing form (contents ++ form.quote :: rest) = _ := closing_contents hcontents
    rw [readLiteralSpecifier_eq hform ht, hclosing]
    simp only [(decodeFrom_eq hform hclosing le_rfl).mpr hcontents]
    obtain ⟨end_, specifier⟩ := literal
    have hend' : index + 1 + contents.length + 1 = end_ := by simp only at hend; omega
    rw [← hend']
    rfl

/-! ## Where the newer edition is met -/

theorem narrow_mem (hform : form ∈ literalForms) : form.narrow ∈ narrowForms := by
  simp only [literalForms, List.mem_cons, List.not_mem_nil, or_false] at hform
  rcases hform with rfl | rfl | rfl <;> simp [Form.narrow, narrowForms]

theorem exists_of_narrow_mem (hform : form ∈ narrowForms) : ∃ wide ∈ literalForms, wide.narrow = form := by
  simp only [narrowForms, List.mem_cons, List.not_mem_nil, or_false] at hform
  rcases hform with rfl | rfl | rfl
  · exact ⟨.single true, by simp [literalForms], rfl⟩
  · exact ⟨.double true, by simp [literalForms], rfl⟩
  · exact ⟨.template, by simp [literalForms], rfl⟩

theorem separators_of_mem (hform : form ∈ literalForms) : form.separators = true := by
  simp only [literalForms, List.mem_cons, List.not_mem_nil, or_false] at hform
  rcases hform with rfl | rfl | rfl <;> rfl

theorem narrow_of_quote {wide : Form} (hform : form ∈ narrowForms) (hwide : wide ∈ literalForms) (h : form.quote = wide.quote) :
    form = wide.narrow := by
  simp only [narrowForms, literalForms, List.mem_cons, List.not_mem_nil, or_false] at hform hwide
  rcases hform with rfl | rfl | rfl <;> rcases hwide with rfl | rfl | rfl <;> first | rfl | cases h

theorem closing_narrow (form : Form) : closing form.narrow = closing form := by
  funext t
  rw [closing, closing, form.narrow_quote, form.narrow_isTemplate]

theorem narrow_contents {contents contents' rest rest' value value' : Text} (h : Contents form contents value)
    (h' : Contents form.narrow contents' value')
    (heq : contents ++ form.quote :: rest = contents' ++ form.quote :: rest') : Contents form.narrow contents value' := by
  have hclosing : closing form.narrow (contents' ++ form.narrow.quote :: rest') = _ := closing_contents h'
  rw [closing_narrow, form.narrow_quote, ← heq, closing_contents h, Option.some.injEq] at hclosing
  exact (List.append_inj heq hclosing).1 ▸ h'

/-- A literal is read exactly unless it is in quotes and has a line separator that no backslash is in front of. -/
theorem exactly_iff (source : Text) (index : Nat) : ReadExactly source index ↔ ¬ SeparatorInQuotes source index := by
  constructor
  · rintro hexact ⟨form, hform, before, c, after, rest, hdrop, hseparated⟩
    obtain ⟨value, hcontents⟩ := contents_of_separated (separators_of_mem hform) hseparated
    have hliteral := (hexact ⟨_, value⟩).mpr ⟨form, hform, before ++ c :: after, rest, hdrop, hcontents, rfl⟩
    obtain ⟨form', hform', contents', rest', hdrop', hcontents', -⟩ := readLiteralSpecifier_iff.mp hliteral
    obtain ⟨hquote, heq⟩ := List.cons.inj (hdrop.symm.trans hdrop')
    obtain rfl := narrow_of_quote hform' hform hquote.symm
    rw [form.narrow_quote] at heq
    exact not_narrow_of_separated hseparated _ (narrow_contents hcontents hcontents' heq)
  · intro hnone literal
    rw [readLiteralSpecifier_iff]
    constructor
    · rintro ⟨form, hform, contents, rest, hdrop, hcontents, hend⟩
      obtain ⟨wide, hwide, rfl⟩ := exists_of_narrow_mem hform
      exact ⟨wide, hwide, contents, rest, by rw [hdrop, wide.narrow_quote], contents_of_narrow hcontents, hend⟩
    · rintro ⟨form, hform, contents, rest, hdrop, hcontents, hend⟩
      rcases narrow_or_separated hcontents with hnarrow | ⟨before, c, after, rfl, hseparated⟩
      · exact ⟨form.narrow, narrow_mem hform, contents, rest, by rw [hdrop, form.narrow_quote], hnarrow, hend⟩
      · exact absurd ⟨form, hform, before, c, after, rest, hdrop, hseparated⟩ hnone

/-- A line separator between double quotes is a literal of one unit, and is not read. -/
theorem separator_thrown : ¬ ReadExactly [34, 0x2028, 34] 0 := by
  intro hexact
  have hbare : (Form.double true).Bare 0x2028 [] := ⟨by decide, by decide, by decide, by decide, fun _ => rfl⟩
  have hcontents : Contents (.double true) [0x2028] [0x2028] := .cons (.bare hbare) .nil
  have hread := (hexact ⟨3, [0x2028]⟩).mpr ⟨.double true, by simp [literalForms], [0x2028], [], rfl, hcontents, rfl⟩
  have hthrown : readLiteralSpecifier [34, 0x2028, 34] 0 = invalidEscapedSpecifier := by decide
  rw [hthrown] at hread
  cases hread

end Veryfront.Transforms
