import Veryfront.Lib.Decimal
import Veryfront.Lib.Split
import Veryfront.Lib.Unicode
import Veryfront.Utils.Text

/-!
# Cron expressions

A cron expression is five fields, a field is a list of items, and an item is a value, a range or a star with a step
behind it. The normal form spells numbers without leading zeros and names in capitals.
-/

namespace Veryfront.Schedule

open Lib

/-! ## Upper case -/

/-- The code points outside ASCII whose upper case holds an ASCII letter. -/
def asciiUppers : List (Nat × Text) :=
  [(0xDF, [83, 83]), (0x131, [73]), (0x149, [0x2BC, 78]), (0x17F, [83]), (0x1F0, [74, 0x30C]), (0x1E96, [72, 0x331]),
    (0x1E97, [84, 0x308]), (0x1E98, [87, 0x30A]), (0x1E99, [89, 0x30A]), (0x1E9A, [65, 0x2BE]), (0xFB00, [70, 70]),
    (0xFB01, [70, 73]), (0xFB02, [70, 76]), (0xFB03, [70, 70, 73]), (0xFB04, [70, 70, 76]), (0xFB05, [83, 84]),
    (0xFB06, [83, 84])]

/-- The upper case of all other code points outside ASCII, the table of which is left open. -/
structure Casing where
  upper : Nat → Text
  nonempty : ∀ point, upper point ≠ []
  nonAscii : ∀ point, ∀ unit ∈ upper point, 128 ≤ unit

def Casing.upperPoint (casing : Casing) (point : Nat) : Text :=
  if point < 128 then [if 97 ≤ point ∧ point ≤ 122 then point - 32 else point]
  else (asciiUppers.lookup point).getD (casing.upper point)

def Casing.toUpperCase (casing : Casing) (value : Text) : Text := (codePoints value).flatMap casing.upperPoint

/-! ## Fields -/

structure CronField where
  minimum : Nat
  maximum : Nat
  names : List (Text × Nat) := []

def months : List (Text × Nat) :=
  [(.of "JAN", 1), (.of "FEB", 2), (.of "MAR", 3), (.of "APR", 4), (.of "MAY", 5), (.of "JUN", 6), (.of "JUL", 7),
    (.of "AUG", 8), (.of "SEP", 9), (.of "OCT", 10), (.of "NOV", 11), (.of "DEC", 12)]

def weekdays : List (Text × Nat) :=
  [(.of "SUN", 0), (.of "MON", 1), (.of "TUE", 2), (.of "WED", 3), (.of "THU", 4), (.of "FRI", 5), (.of "SAT", 6)]

def cronFields : List CronField :=
  [{ minimum := 0, maximum := 59 }, { minimum := 0, maximum := 23 }, { minimum := 1, maximum := 31 },
    { minimum := 1, maximum := 12, names := months }, { minimum := 0, maximum := 7, names := weekdays }]

def slash : Nat := 47

def dash : Nat := 45

def comma : Nat := 44

def star : Nat := 42

def space : Nat := 32

/-! ## Normal forms -/

def maxSafeInteger : Nat := 9007199254740991

/-- A number beyond the safe ones is rounded to another one beyond them. -/
def parseInteger (value : Text) : Option Nat :=
  if IsDecimal value ∧ digitsValue value ≤ maxSafeInteger then some (digitsValue value) else none

structure FieldValue where
  text : Text
  number : Nat
deriving DecidableEq

def normalizeFieldValue (casing : Casing) (value : Text) (field : CronField) : Option FieldValue :=
  match field.names.lookup (casing.toUpperCase value) with
  | some number => some ⟨casing.toUpperCase value, number⟩
  | none => do
    let numeric ← parseInteger value
    if numeric < field.minimum ∨ field.maximum < numeric then none else some ⟨decimal numeric, numeric⟩

/-- What stands before a step. -/
def normalizeBase (casing : Casing) (base : Text) (field : CronField) : Option Text :=
  if base = [star] then some base
  else
    let rangeParts := base.splitOn dash
    if 2 < rangeParts.length ∨ [] ∈ rangeParts then none
    else
      match rangeParts with
      | [first] => (normalizeFieldValue casing first field).map FieldValue.text
      | first :: last :: _ => do
        let start ← normalizeFieldValue casing first field
        let stop ← normalizeFieldValue casing last field
        if stop.number < start.number then none else some (start.text ++ dash :: stop.text)
      | [] => none

def CronField.width (field : CronField) : Nat := field.maximum - field.minimum + 1

def normalizeCronItem (casing : Casing) (item : Text) (field : CronField) : Option Text :=
  let stepParts := item.splitOn slash
  if 2 < stepParts.length ∨ [] ∈ stepParts then none
  else
    match stepParts with
    | [base] => normalizeBase casing base field
    | base :: stepText :: _ => do
      let normalizedBase ← normalizeBase casing base field
      let step ← parseInteger stepText
      if step < 1 ∨ field.width < step then none else some (normalizedBase ++ slash :: decimal step)
    | [] => none

def normalizeCronField (casing : Casing) (value : Text) (field : CronField) : Option Text :=
  let items := value.splitOn comma
  if [] ∈ items then none
  else (items.mapM (normalizeCronItem casing · field)).map [comma].intercalate

def spaces : Separator Nat where
  find
    | [] => none
    | unit :: rest => if unit = space then some (rest.dropWhile (· = space)) else none
  cuts := by
    intro t rest h
    cases t with
    | nil => cases h
    | cons unit t =>
      have hrun : (if unit = space then some (t.dropWhile (· = space)) else none) = some rest := h
      obtain ⟨-, hrest⟩ := Option.ite_none_right_eq_some.mp hrun
      obtain rfl := Option.some.inj hrest
      exact ⟨unit :: t.takeWhile (· = space), List.cons_ne_nil _ _, by rw [List.cons_append, List.takeWhile_append_dropWhile]⟩

def normalizeCronExpression (casing : Casing) (value : Text) : Option Text :=
  let fields := spaces.split value.trim
  if fields.length ≠ cronFields.length then none
  else ((fields.zip cronFields).mapM fun part => normalizeCronField casing part.1 part.2).map [space].intercalate

end Veryfront.Schedule
