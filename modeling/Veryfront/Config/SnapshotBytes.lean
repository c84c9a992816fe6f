import Mathlib.Algebra.Order.BigOperators.Group.Finset
import Veryfront.Cache.TextBytes
import Veryfront.Config.SnapshotData

/-!
# The bytes of a snapshot

The estimate is an upper bound for everything but a number whose text has twenty-five units. The separators of a record
make up for such a number, those of an array do not.
-/

namespace Veryfront.Config.Snapshots

open Lib
open Cache (textEncode textEncode_append_le textEncode_unit_le textEncode_ascii jsonQuote_bytes_le)

variable {ρ σ : Type} {R : ρ → σ → Prop}

/-! ## Numbers -/

/-- Negative, of seventeen digits, and behind five zeros. -/
def Decimal.Long (d : Decimal) : Prop := d.negative = true ∧ d.digits.length = 17 ∧ d.exponent = -5

def Number.Long : Number → Prop
  | .finite d => d.Long
  | _ => False

theorem length_sign_le (negative : Bool) : (sign negative).length ≤ 1 := by cases negative <;> decide

theorem length_decimal_le {n : Nat} (h : n < 1000) : (decimal n).length ≤ 3 := by
  rw [decimal, List.length_map]
  exact (Nat.length_toDigits_le_iff (by decide) (by decide)).mpr h

theorem length_magnitude_le {digits : Text} {n : Int} (hlength : digits.length ≤ 17) (hge : -323 ≤ n) (hle : n ≤ 309) :
    (magnitude digits n).length ≤ 23 ∨ digits.length = 17 ∧ n = -5 ∧ (magnitude digits n).length = 24 := by
  have hexponent := length_decimal_le (show (n - 1).natAbs < 1000 by omega)
  unfold magnitude
  split
  · left
    rw [List.length_append, List.length_replicate]
    omega
  split
  · left
    rw [List.length_append, List.length_cons, List.length_take, List.length_drop]
    omega
  split
  · rw [List.length_append, List.length_append, List.length_replicate]
    change 2 + _ + _ ≤ 23 ∨ _ ∧ _ ∧ 2 + _ + _ = 24
    omega
  · left
    have hmantissa : (if digits.length = 1 then digits else digits.take 1 ++ 46 :: digits.drop 1).length ≤ 18 := by
      split
      · omega
      · rw [List.length_append, List.length_cons, List.length_take, List.length_drop]
        omega
    simp only [List.length_append, List.length_cons, List.length_nil]
    omega

theorem length_text_le (n : Number) : n.text.length ≤ 24 ∨ n.Long := by
  cases n with
  | notANumber => left; decide
  | infinite negative => left; cases negative <;> decide
  | zero negative => exact .inl (by change 1 ≤ 24; decide)
  | finite d =>
    have hsign := length_sign_le d.negative
    have hdigits : (d.digits.map (48 + ·)).length ≤ 17 := by
      rw [List.length_map]
      exact d.length_le
    rw [Number.text, List.length_append]
    rcases length_magnitude_le hdigits d.exponent_ge d.exponent_le with hshort | ⟨hlength, hexponent, hmagnitude⟩
    · left
      omega
    · cases hnegative : d.negative with
      | false =>
        left
        change 0 + _ ≤ 24
        omega
      | true =>
        rw [List.length_map] at hlength
        exact .inr ⟨hnegative, hlength, hexponent⟩

theorem Number.Long.isFinite {n : Number} (h : n.Long) : n.isFinite = true := by
  cases n with
  | finite d => rfl
  | _ => exact h.elim

theorem Number.Long.length_text {n : Number} (h : n.Long) : n.text.length = 25 := by
  cases n with
  | finite d =>
    obtain ⟨hnegative, hdigits, hexponent⟩ := h
    have hlength : (d.digits.map (48 + ·)).length = 17 := by rw [List.length_map, hdigits]
    rw [Number.text, hnegative, hexponent, magnitude, hlength, if_neg (by decide), if_neg (by decide), if_pos (by decide)]
    rw [List.length_append, List.length_append, hlength]
    rfl
  | _ => exact h.elim

theorem ascii_magnitude {digits : Text} (h : ∀ unit ∈ digits, unit < 128) (n : Int) : ∀ unit ∈ magnitude digits n, unit < 128 := by
  have hdecimal : ∀ unit ∈ decimal (n - 1).natAbs, unit < 128 := fun unit hunit => by
    have hdigit := (isDecimal_decimal _).2 unit hunit
    omega
  have htake : ∀ k, ∀ unit ∈ digits.take k, unit < 128 := fun k unit hunit => h unit (List.mem_of_mem_take hunit)
  have hdrop : ∀ k, ∀ unit ∈ digits.drop k, unit < 128 := fun k unit hunit => h unit (List.mem_of_mem_drop hunit)
  have hzeros : ∀ k, ∀ unit ∈ List.replicate k 48, unit < 128 := fun k unit hunit => by
    rw [List.eq_of_mem_replicate hunit]
    decide
  unfold magnitude
  split
  · exact List.forall_mem_append.mpr ⟨h, hzeros _⟩
  split
  · exact List.forall_mem_append.mpr ⟨htake _, List.forall_mem_cons.mpr ⟨by decide, hdrop _⟩⟩
  split
  · exact List.forall_mem_append.mpr ⟨List.forall_mem_append.mpr ⟨by decide, hzeros _⟩, h⟩
  · refine List.forall_mem_append.mpr ⟨List.forall_mem_append.mpr ⟨?_, ?_⟩, hdecimal⟩
    · split
      · exact h
      · exact List.forall_mem_append.mpr ⟨htake _, List.forall_mem_cons.mpr ⟨by decide, hdrop _⟩⟩
    · split <;> decide

theorem ascii_text (n : Number) : ∀ unit ∈ n.text, unit < 128 := by
  have hsign : ∀ negative : Bool, ∀ unit ∈ sign negative, unit < 128 := by decide
  cases n with
  | notANumber => decide
  | infinite negative => exact List.forall_mem_append.mpr ⟨hsign negative, by decide⟩
  | zero negative => exact fun unit hunit => by rw [List.mem_singleton.mp hunit]; decide
  | finite d =>
    refine List.forall_mem_append.mpr ⟨hsign d.negative, ascii_magnitude (fun unit hunit => ?_) d.exponent⟩
    obtain ⟨digit, hdigit, rfl⟩ := List.mem_map.mp hunit
    have hle := d.digit_le digit hdigit
    omega

/-! ## Texts of several parts -/

theorem intercalate_bytes_le (texts : List Text) :
    (textEncode ([comma].intercalate texts)).length ≤ (texts.map fun t => (textEncode t).length).sum + (texts.length - 1) := by
  induction texts with
  | nil => exact Nat.zero_le _
  | cons t texts ih =>
    cases texts with
    | nil => simp
    | cons u texts =>
      have houter := textEncode_append_le (t ++ [comma]) ([comma].intercalate (u :: texts))
      have hinner := textEncode_append_le t [comma]
      have hcomma : (textEncode [comma]).length = 1 := by decide
      rw [List.intercalate_cons_cons, List.map_cons, List.sum_cons, List.length_cons]
      rw [List.length_cons] at ih
      rw [List.append_assoc] at houter ⊢
      rw [List.length_cons]
      omega

theorem enclosed_bytes_le {opening closing : Nat} (hopening : opening < 128) (hclosing : closing < 128) (texts : List Text) :
    (textEncode (opening :: [comma].intercalate texts ++ [closing])).length ≤
      2 + (texts.map fun t => (textEncode t).length).sum + (texts.length - 1) := by
  have hinner := intercalate_bytes_le texts
  have hopen : (textEncode [opening]).length = 1 := textEncode_ascii (by simpa using hopening)
  have hclose : (textEncode [closing]).length = 1 := textEncode_ascii (by simpa using hclosing)
  have hfirst := textEncode_unit_le opening ([comma].intercalate texts)
  have hlast := textEncode_append_le (opening :: [comma].intercalate texts) [closing]
  omega

/-! ## Values -/

/-- The estimate. -/
def bytesOf (value : Value ρ) : Nat := (cost value).2.2.2

theorem bytesOf_array (ref : ρ) {length : Nat} (items : Fin length → Value ρ) :
    bytesOf (.array ref length items) = 2 + (length - 1) + ∑ i, bytesOf (items i) := by
  simp only [bytesOf, cost, Prod.snd_add, Prod.snd_sum]
  simp [ARRAY_OR_OBJECT_BYTES, ARRAY_ITEM_SEPARATOR_BYTES]

theorem bytesOf_record (ref : ρ) {keys : List JsString} (distinct : keys.Nodup) (values : Fin keys.length → Value ρ) :
    bytesOf (.record ref keys distinct values) =
      2 + (keys.length - 1) * 2 + (keys.map keyBytes).sum + ∑ i, bytesOf (values i) := by
  simp only [bytesOf, cost, Prod.snd_add, Prod.snd_sum]
  simp [ARRAY_OR_OBJECT_BYTES, OBJECT_PROPERTY_SEPARATOR_BYTES]

def ItemNumbers (allowed : Number → Prop) : Value ρ → Prop
  | .array _ _ items => ∀ i, (∀ n, items i = .number n → allowed n) ∧ ItemNumbers allowed (items i)
  | .record _ _ _ values => ∀ i, ItemNumbers allowed (values i)
  | _ => True

abbrev NoLongItems (value : Value ρ) : Prop := ItemNumbers (¬·.Long) value

variable {value : Value ρ}

theorem alike_number_iff {value' : Value σ} (h : value.Alike R value') (n : Number) :
    value = .number n ↔ value' = .number n := by
  cases h <;> simp

theorem itemNumbers_iff {value' : Value σ} (h : value.Alike R value') (allowed : Number → Prop) :
    ItemNumbers allowed value ↔ ItemNumbers allowed value' := by
  induction h with
  | null => rfl
  | boolean b => rfl
  | number n => rfl
  | string text => rfl
  | array href hitems ih => simp only [ItemNumbers, ih, alike_number_iff (hitems _)]
  | @record ref ref' keys keys' distinct distinct' values values' href hkeys hvalues ih =>
    simp only [ItemNumbers, (place_bijective hkeys distinct).surjective.forall, ih]

theorem ItemNumbers.mono {allowed allowed' : Number → Prop} (h : ∀ n, allowed n → allowed' n)
    (hvalue : ItemNumbers allowed value) : ItemNumbers allowed' value := by
  induction value with
  | null => trivial
  | boolean b => trivial
  | number n => trivial
  | string text => trivial
  | array ref length items ih => exact fun i => ⟨fun n hn => h n ((hvalue i).1 n hn), ih i (hvalue i).2⟩
  | record ref keys distinct values ih => exact fun i => ih i (hvalue i)

structure Estimated (value : Value ρ) : Prop where
  nearly : (textEncode (stringify value)).length ≤ bytesOf value + 1
  fully : (∀ n, value = .number n → ¬n.Long) → (textEncode (stringify value)).length ≤ bytesOf value

theorem Estimated.of_le (h : (textEncode (stringify value)).length ≤ bytesOf value) : Estimated value :=
  ⟨Nat.le_succ_of_le h, fun _ => h⟩

theorem estimated_number (n : Number) : Estimated (.number n : Value ρ) := by
  have hnull : (textEncode (.of "null")).length = 4 := by decide
  have hbytes : bytesOf (.number n : Value ρ) = 24 := rfl
  have htext : (textEncode (stringify (.number n : Value ρ))).length = if n.isFinite then n.text.length else 4 := by
    rw [stringify]
    split
    · exact textEncode_ascii (ascii_text n)
    · exact hnull
  constructor
  · rw [htext, hbytes]
    split
    · rcases length_text_le n with hshort | hlong
      · omega
      · rw [hlong.length_text]
    · omega
  · intro hnot
    rw [htext, hbytes]
    split
    · exact (length_text_le n).resolve_right (hnot n rfl)
    · omega

theorem units_lt (text : JsString) : ∀ unit ∈ units text, unit < 0x10000 := by
  intro unit hunit
  obtain ⟨codeUnit, -, rfl⟩ := List.mem_map.mp hunit
  exact codeUnit.isLt

theorem quoted_bytes_le (text : JsString) : (textEncode (Cache.jsonQuote (units text))).length ≤ estimateJsonStringBytes text.length := by
  have hquoted := jsonQuote_bytes_le (units_lt text)
  rw [show (units text).length = text.length from List.length_map ..] at hquoted
  simp only [estimateJsonStringBytes, JSON_STRING_DELIMITER_BYTES, JSON_STRING_MAX_BYTES_PER_CODE_UNIT]
  omega

theorem property_bytes_le (key : JsString) (t : Text) :
    (textEncode (Cache.jsonQuote (units key) ++ 58 :: t)).length + 1 ≤ keyBytes key + (textEncode t).length := by
  have hquoted := quoted_bytes_le key
  have hcolon : (textEncode [58]).length = 1 := by decide
  have houter := textEncode_append_le (Cache.jsonQuote (units key)) (58 :: t)
  have hinner := textEncode_unit_le 58 t
  simp only [keyBytes, OBJECT_PROPERTY_SEPARATOR_BYTES]
  omega

theorem attach_map_eq_ofFn {α β : Type} (l : List α) (f : { a // a ∈ l } → β) :
    l.attach.map f = List.ofFn fun j : Fin l.length => f ⟨l[j], List.getElem_mem j.isLt⟩ := by
  apply List.ext_getElem
  · simp
  · intro i hi hi'
    simp

theorem estimated (h : NoLongItems value) : Estimated value := by
  induction value with
  | null => exact .of_le (by change (textEncode (.of "null")).length ≤ 4; decide)
  | boolean b => exact .of_le (by cases b <;> (change (textEncode (.of _)).length ≤ 5; decide))
  | number n => exact estimated_number n
  | string text => exact .of_le (quoted_bytes_le text)
  | array ref length items ih =>
    refine .of_le ?_
    have hjoined := enclosed_bytes_le (show 91 < 128 by decide) (show 93 < 128 by decide) (List.ofFn fun i => stringify (items i))
    rw [List.map_ofFn, List.sum_ofFn, List.length_ofFn] at hjoined
    have hitems := Finset.sum_le_sum fun i (_ : i ∈ Finset.univ) => (ih i (h i).2).fully (h i).1
    rw [stringify, bytesOf_array]
    calc
      _ ≤ 2 + ∑ i, (textEncode (stringify (items i))).length + (length - 1) := hjoined
      _ ≤ 2 + (length - 1) + ∑ i, bytesOf (items i) := by omega
  | record ref keys distinct values ih =>
    refine .of_le ?_
    have hperm := ownKeys_perm keys
    have hplaces := place_bijective hperm distinct
    let texts := fun j : Fin (ownKeys keys).length =>
      Cache.jsonQuote (units (ownKeys keys)[j]) ++ 58 :: stringify (values (place hperm j))
    have hjoined := enclosed_bytes_le (show 123 < 128 by decide) (show 125 < 128 by decide) (List.ofFn texts)
    rw [List.map_ofFn, List.sum_ofFn, List.length_ofFn] at hjoined
    have hproperty : ∀ j, (textEncode (texts j)).length ≤ keyBytes (ownKeys keys)[j] + bytesOf (values (place hperm j)) := fun j => by
      have hkey := property_bytes_le (ownKeys keys)[j] (stringify (values (place hperm j)))
      have hvalue := (ih (place hperm j) (h _)).nearly
      change (textEncode (Cache.jsonQuote _ ++ 58 :: _)).length ≤ _
      omega
    have hsum := Finset.sum_le_sum fun j (_ : j ∈ Finset.univ) => hproperty j
    have hkeys : ∑ j : Fin (ownKeys keys).length, keyBytes (ownKeys keys)[j] = (keys.map keyBytes).sum := by
      rw [← (hperm.map keyBytes).sum_eq, ← List.sum_ofFn]
      exact congrArg List.sum (List.ofFn_getElem_eq_map (ownKeys keys) keyBytes)
    rw [Finset.sum_add_distrib, hkeys, hplaces.sum_comp fun i => bytesOf (values i)] at hsum
    rw [stringify, bytesOf_record, attach_map_eq_ofFn]
    calc
      _ ≤ 2 + ∑ j, (textEncode (texts j)).length + ((ownKeys keys).length - 1) := hjoined
      _ ≤ 2 + (keys.length - 1) * 2 + (keys.map keyBytes).sum + ∑ i, bytesOf (values i) := by
        have hlength := hperm.length_eq
        omega

end Veryfront.Config.Snapshots
