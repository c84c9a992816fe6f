import Veryfront.Lib.Pointwise
import Veryfront.Schedule.Calendar

/-!
# The grammar of cron expressions

What the normal form is given for, and what it says. A name may be spelled in either case; beside the letters of ASCII,
two more have a capital of ASCII and are taken for it.
-/

namespace Veryfront.Schedule

open Lib

/-! ## What is spelled -/

/-- The dotless i and the long s, each with the letter it stands for. -/
def foldedLetters : List (Nat × Nat) := [(0x131, 73), (0x17F, 83)]

section Grammar

variable (also : List (Nat × Nat))

/-- A unit stands for a capital letter: in either case, or as one of the given others. -/
def Letter (unit letter : Nat) : Prop := unit = letter ∨ unit = letter + 32 ∨ (unit, letter) ∈ also

inductive SpellsValue (field : CronField) : Text → Nat → Prop
  | number {text : Text} (hdigits : IsDecimal text) (hleast : field.minimum ≤ digitsValue text)
      (hmost : digitsValue text ≤ field.maximum) : SpellsValue field text (digitsValue text)
  | name {text name : Text} {number : Nat} (hname : (name, number) ∈ field.names)
      (hletters : List.Forall₂ (Letter also) text name) : SpellsValue field text number

inductive Base
  | any
  | value (number : Nat)
  | range (start stop : Nat)

inductive SpellsBase (field : CronField) : Text → Base → Prop
  | any : SpellsBase field [star] .any
  | value {text : Text} {number : Nat} (hvalue : SpellsValue also field text number) : SpellsBase field text (.value number)
  | range {first last : Text} {start stop : Nat} (hstart : SpellsValue also field first start)
      (hstop : SpellsValue also field last stop) (hle : start ≤ stop) :
      SpellsBase field (first ++ dash :: last) (.range start stop)

structure Item where
  base : Base
  step : Option Nat

inductive SpellsItem (field : CronField) : Text → Item → Prop
  | plain {text : Text} {base : Base} (hbase : SpellsBase also field text base) : SpellsItem field text ⟨base, none⟩
  | stepped {text step : Text} {base : Base} (hbase : SpellsBase also field text base) (hdigits : IsDecimal step)
      (hleast : 1 ≤ digitsValue step) (hmost : digitsValue step ≤ field.width) :
      SpellsItem field (text ++ slash :: step) ⟨base, some (digitsValue step)⟩

def SpellsField (field : CronField) (text : Text) (items : List Item) : Prop :=
  ∃ texts, texts ≠ [] ∧ text = [comma].intercalate texts ∧ List.Forall₂ (SpellsItem also field) texts items

inductive SpellsFields : List CronField → Text → List (List Item) → Prop
  | last {field : CronField} {text : Text} {items : List Item} (hfield : SpellsField also field text items) :
      SpellsFields [field] text [items]
  | next {field : CronField} {text run rest : Text} {items : List Item} {fields : List CronField} {more : List (List Item)}
      (hfield : SpellsField also field text items) (hrun : run ≠ []) (hspaces : ∀ unit ∈ run, unit = space)
      (hrest : SpellsFields fields rest more) : SpellsFields (field :: fields) (text ++ run ++ rest) (items :: more)

def SpellsExpression (value : Text) (schedule : List (List Item)) : Prop := SpellsFields also cronFields value.trim schedule

end Grammar

/-! ## What it denotes -/

def Base.first (field : CronField) : Base → Nat
  | .any => field.minimum
  | .value number => number
  | .range start _ => start

def Item.last (field : CronField) (item : Item) : Nat :=
  match item.base with
  | .any => field.maximum
  | .value number => if item.step.isSome then field.maximum else number
  | .range _ stop => stop

def Item.fires (field : CronField) (item : Item) : Set Nat :=
  {n | item.base.first field ≤ n ∧ n ≤ item.last field ∧ item.step.getD 1 ∣ n - item.base.first field}

def tuples (schedule : List (List Item)) : Set (List Nat) :=
  {tuple | List.Forall₂ (fun (part : CronField × List Item) n => ∃ item ∈ part.2, n ∈ item.fires part.1)
    (cronFields.zip schedule) tuple}

def denotes (value : Text) : Set (List Nat) :=
  {tuple | ∃ schedule, SpellsExpression foldedLetters value schedule ∧ tuple ∈ tuples schedule}

/-! ## Names -/

/-- Letters that are the capitals of one code point. -/
def ligatures : List Text := [[83, 83], [70, 70], [70, 73], [70, 76], [83, 84]]

structure PlainName (name : Text) : Prop where
  nonempty : name ≠ []
  capitals : ∀ unit ∈ name, 65 ≤ unit ∧ unit ≤ 90
  apart : ∀ letters ∈ ligatures, ¬ letters <:+: name

theorem mem_foldedLetters {unit letter : Nat} :
    (unit, letter) ∈ foldedLetters ↔ unit = 0x131 ∧ letter = 73 ∨ unit = 0x17F ∧ letter = 83 := by
  simp [foldedLetters]

section Names

variable (casing : Casing)

theorem upperPoint_cases (point : Nat) :
    (∃ letter, casing.upperPoint point = [letter] ∧ Letter foldedLetters point letter) ∨
      (∃ unit ∈ casing.upperPoint point, 128 ≤ unit) ∨ ∃ letters ∈ ligatures, letters <:+: casing.upperPoint point := by
  rw [Casing.upperPoint]
  split
  · left
    split
    · exact ⟨_, rfl, .inr (.inl (by omega))⟩
    · exact ⟨_, rfl, .inl rfl⟩
  · cases hlookup : asciiUppers.lookup point with
    | none =>
      obtain ⟨unit, hunit⟩ := List.exists_mem_of_ne_nil _ (casing.nonempty point)
      exact .inr (.inl ⟨unit, hunit, casing.nonAscii point unit hunit⟩)
    | some units =>
      have htable : ∀ entry ∈ asciiUppers, (entry.2.length = 1 ∧ (entry.1, entry.2.headD 0) ∈ foldedLetters) ∨
          (∃ unit ∈ entry.2, 128 ≤ unit) ∨ ∃ letters ∈ ligatures, letters <:+: entry.2 := by decide
      have hentry : (point, units) ∈ asciiUppers := by
        obtain ⟨before, after, heq, -⟩ := List.lookup_eq_some_iff.mp hlookup
        rw [heq]
        exact List.mem_append_right _ List.mem_cons_self
      rcases htable _ hentry with ⟨hlength, hfolded⟩ | hrest
      · obtain ⟨letter, rfl⟩ := List.length_eq_one_iff.mp hlength
        exact .inl ⟨letter, rfl, .inr (.inr hfolded)⟩
      · exact .inr hrest

theorem upperPoint_of_letter {point letter : Nat} (h : Letter foldedLetters point letter) (hlow : 65 ≤ letter)
    (hhigh : letter ≤ 90) : casing.upperPoint point = [letter] := by
  rcases h with rfl | rfl | h
  · rw [Casing.upperPoint, if_pos (by omega), if_neg (by omega)]
  · rw [Casing.upperPoint, if_pos (by omega), if_pos (by omega), Nat.add_sub_cancel]
  · rcases mem_foldedLetters.mp h with ⟨rfl, rfl⟩ | ⟨rfl, rfl⟩
    · rfl
    · rfl

theorem flatMap_upperPoint_iff {points : List Nat} {name : Text} (hcapitals : ∀ unit ∈ name, 65 ≤ unit ∧ unit ≤ 90)
    (hapart : ∀ letters ∈ ligatures, ¬ letters <:+: name) :
    points.flatMap casing.upperPoint = name ↔ List.Forall₂ (Letter foldedLetters) points name := by
  constructor
  · intro h
    induction points generalizing name with
    | nil =>
      subst h
      exact .nil
    | cons point points ih =>
      rw [List.flatMap_cons] at h
      rcases upperPoint_cases casing point with ⟨letter, hletter, hspelled⟩ | ⟨unit, hunit, hle⟩ | ⟨letters, hletters, hpart⟩
      · rw [hletter, List.singleton_append] at h
        subst h
        exact .cons hspelled (ih (fun u hu => hcapitals u (List.mem_cons_of_mem _ hu))
          (fun l hl hin => hapart l hl (hin.trans (List.suffix_cons _ _).isInfix)) rfl)
      · have := hcapitals unit (h ▸ List.mem_append_left _ hunit)
        omega
      · exact absurd (hpart.trans (h ▸ (List.prefix_append _ _).isInfix)) (hapart letters hletters)
  · intro h
    induction h with
    | nil => rfl
    | @cons point letter points name hletter _ ih =>
      obtain ⟨hlow, hhigh⟩ := hcapitals letter List.mem_cons_self
      rw [List.flatMap_cons, upperPoint_of_letter casing hletter hlow hhigh,
        ih (fun u hu => hcapitals u (List.mem_cons_of_mem _ hu))
          (fun l hl hin => hapart l hl (hin.trans (List.suffix_cons _ _).isInfix)), List.singleton_append]

theorem toUpperCase_eq_iff {text name : Text} (h : PlainName name) :
    casing.toUpperCase text = name ↔ List.Forall₂ (Letter foldedLetters) text name := by
  rw [Casing.toUpperCase, flatMap_upperPoint_iff casing h.capitals h.apart]
  have hlow : ∀ {points : List Nat}, List.Forall₂ (Letter foldedLetters) points name → ∀ point ∈ points, point < 0xD800 := by
    intro points hletters point hpoint
    obtain ⟨letter, hmem, hletter⟩ := forall₂_partner hletters hpoint
    have := h.capitals letter hmem
    rcases hletter with rfl | rfl | hletter
    · omega
    · omega
    · rcases mem_foldedLetters.mp hletter with ⟨rfl, -⟩ | ⟨rfl, -⟩ <;> decide
  constructor
  · intro hletters
    rwa [codePoints_of_basic_points (hlow hletters)] at hletters
  · intro hletters
    rwa [codePoints_of_basic (hlow hletters)]

end Names

end Veryfront.Schedule
