import Mathlib.Data.Fin.VecNotation
import Mathlib.Tactic.FinCases
import Veryfront.Config.SnapshotBytes

/-!
# Snapshots are canonical and bounded

A snapshot has the data of its source and is its own snapshot, and the order of keys does not matter. Its JSON text is
within the limit if no array has a long number. Beside a long number it need not be.
-/

namespace Veryfront.Config.Snapshots

open Lib
open Cache (textEncode textEncode_ascii jsonQuote jsonEscape jsonNamed)

variable {ρ σ : Type} {R : ρ → σ → Prop}

/-! ## One snapshot -/

def Value.objects (value : Value ρ) : Multiset ρ := (cost value).1

def Bounded (result : ConfigSnapshotValue) : Prop := (textEncode (stringify result)).length ≤ maxEstimatedBytes

variable {value : Value ρ}

theorem accepted_iff {value' : Value ρ} (h : value.Alike Eq value') : Accepted value ↔ Accepted value' := by
  have hcost : cost value = cost value' := Prod.ext (cost_fst_eq h) (cost_snd_eq h)
  constructor
  · rintro ⟨hadmissible, hdistinct, hnodes, hproperties, hbytes⟩
    rw [hcost] at hdistinct hnodes hproperties hbytes
    exact ⟨(admissible_iff h _).mp hadmissible, hdistinct, hnodes, hproperties, hbytes⟩
  · rintro ⟨hadmissible, hdistinct, hnodes, hproperties, hbytes⟩
    rw [← hcost] at hdistinct hnodes hproperties hbytes
    exact ⟨(admissible_iff h _).mpr hadmissible, hdistinct, hnodes, hproperties, hbytes⟩

theorem Accepted.bounded (h : Accepted value) (hitems : NoLongItems value) : Bounded (canonical value) := by
  have hsame := sameJson_canonical value
  have hestimated := estimated ((itemNumbers_iff hsame _).mp hitems)
  have hbytes : bytesOf (canonical value) ≤ maxEstimatedBytes := by
    rw [bytesOf, ← cost_snd_eq hsame]
    exact h.bytes
  by_cases hroot : ∀ n, canonical value = .number n → ¬n.Long
  · exact (hestimated.fully hroot).trans hbytes
  · -- A number alone is far within the limit.
    push Not at hroot
    obtain ⟨n, hn, -⟩ := hroot
    have hnearly := hestimated.nearly
    rw [Bounded]
    rw [hn] at hnearly ⊢
    exact hnearly.trans (by decide : JSON_NUMBER_MAX_BYTES + 1 ≤ maxEstimatedBytes)

/-! ## Beside a long number -/

/-- Texts of control characters leave no room. -/
def crowded (ref : ρ) (n : Number) (text : JsString) : Value ρ :=
  .array ref 5 ![.number n, .null, .string text, .string text, .string text]

def controls (count : Nat) : JsString := asciiString (List.replicate count 1)

theorem length_controls (count : Nat) : (controls count).length = count := by
  rw [controls, asciiString, List.length_map, List.length_replicate]

theorem accepted_crowded (ref : ρ) {n : Number} (hn : n.isFinite = true) {text : JsString} (h : text.length = 58252) :
    Accepted (crowded ref n text) := by
  have hcost : cost (crowded ref n text) = ({ref}, 6, 5, 1048576) := by
    simp [crowded, cost, Fin.sum_univ_succ, estimateJsonStringBytes, h, JSON_NUMBER_MAX_BYTES, ARRAY_OR_OBJECT_BYTES,
      ARRAY_ITEM_SEPARATOR_BYTES, JSON_STRING_DELIMITER_BYTES, JSON_STRING_MAX_BYTES_PER_CODE_UNIT]
  have htext : text.length ≤ maxStringLength := by
    rw [h]
    decide
  refine ⟨⟨by decide, fun i => ?_⟩, ?_, ?_, ?_, ?_⟩
  · fin_cases i
    exacts [hn, trivial, htext, htext, htext]
  all_goals rw [hcost]
  · exact Multiset.nodup_singleton ref
  · exact (by decide : 6 ≤ maxTotalNodes)
  · exact (by decide : 5 ≤ maxTotalProperties)
  · exact Nat.le_refl maxEstimatedBytes

theorem itemNumbers_crowded (ref : ρ) {n : Number} (text : JsString) {allowed : Number → Prop} (hn : allowed n) :
    ItemNumbers allowed (crowded ref n text) := by
  have hnumber : ∀ m, (.number n : Value ρ) = .number m → allowed m := fun m hm => Value.number.inj hm ▸ hn
  have hnull : ∀ m, (.null : Value ρ) = .number m → allowed m := by simp
  have hstring : ∀ m, (.string text : Value ρ) = .number m → allowed m := by simp
  intro i
  fin_cases i
  exacts [⟨hnumber, trivial⟩, ⟨hnull, trivial⟩, ⟨hstring, trivial⟩, ⟨hstring, trivial⟩, ⟨hstring, trivial⟩]

theorem quoted_controls (count : Nat) :
    (∀ unit ∈ jsonQuote (units (controls count)), unit < 128) ∧ (jsonQuote (units (controls count))).length = 2 + 6 * count := by
  have hpoints : codePoints (units (controls count)) = List.replicate count 1 := by
    rw [units, controls, asciiString, List.map_replicate, List.map_replicate]
    induction count with
    | zero => rfl
    | succ count ih =>
      rw [List.replicate_succ, List.replicate_succ, codePoints_cons (by decide), ih]
      rfl
  have hescape : jsonEscape 1 = [92, 117, 48, 48, 48, 49] := by
    rw [jsonEscape, show jsonNamed.lookup 1 = none by decide]
    dsimp only
    rw [if_pos (by decide), padStart_toHex (by decide)]
    decide
  rw [jsonQuote, hpoints, List.flatMap_replicate, hescape]
  constructor
  · refine List.forall_mem_append.mpr ⟨List.forall_mem_cons.mpr ⟨by decide, fun unit hunit => ?_⟩, by decide⟩
    obtain ⟨escape, hescape, hunit⟩ := List.mem_flatten.mp hunit
    rw [List.eq_of_mem_replicate hescape] at hunit
    exact (by decide : ∀ u ∈ [92, 117, 48, 48, 48, 49], u < 128) unit hunit
  · simp only [List.length_append, List.length_cons, List.length_nil, List.length_flatten, List.map_replicate, List.sum_replicate,
      smul_eq_mul]
    omega

theorem ascii_intercalate {texts : List Text} (h : ∀ t ∈ texts, ∀ unit ∈ t, unit < 128) :
    ∀ unit ∈ [comma].intercalate texts, unit < 128 := by
  induction texts with
  | nil => nofun
  | cons t texts ih =>
    have hrest := ih fun u hu => h u (List.mem_cons_of_mem _ hu)
    cases texts with
    | nil => simpa using h t List.mem_cons_self
    | cons u texts =>
      rw [List.intercalate_cons_cons]
      exact List.forall_mem_append.mpr ⟨List.forall_mem_append.mpr ⟨h t List.mem_cons_self, by decide⟩, hrest⟩

theorem not_bounded_crowded (ref : ρ) {n : Number} (hn : n.isFinite = true) (hlength : n.text.length = 25) {text : JsString}
    (hascii : ∀ unit ∈ jsonQuote (units text), unit < 128) (hquoted : (jsonQuote (units text)).length = 349514) :
    ¬Bounded (canonical (crowded ref n text)) := by
  have hcanonical : canonical (crowded ref n text) = crowded () n text := by
    rw [crowded, canonical, crowded]
    refine congrArg _ (funext fun i => ?_)
    fin_cases i <;> rfl
  have htext : stringify (crowded () n text) = 91 :: [comma].intercalate
      [n.text, Text.of "null", jsonQuote (units text), jsonQuote (units text), jsonQuote (units text)] ++ [93] := by
    have hnumber : stringify (.number n : ConfigSnapshotValue) = n.text := by rw [stringify, if_pos hn]
    rw [crowded, stringify, ← hnumber]
    rfl
  rw [Bounded, hcanonical, htext, textEncode_ascii]
  · have hnull : (Text.of "null").length = 4 := by decide
    simp only [List.intercalate_cons_cons, List.intercalate_singleton, List.length_append, List.length_cons, List.length_nil, hlength,
      hnull, hquoted]
    decide
  · refine List.forall_mem_append.mpr ⟨List.forall_mem_cons.mpr ⟨by decide, ascii_intercalate ?_⟩, by decide⟩
    simp only [List.forall_mem_cons]
    exact ⟨ascii_text n, by decide, hascii, hascii, hascii, List.forall_mem_nil _⟩

theorem not_bounded_crowded_long (ref : ρ) {n : Number} (h : n.Long) : ¬Bounded (canonical (crowded ref n (controls 58252))) :=
  not_bounded_crowded ref h.isFinite h.length_text (quoted_controls 58252).1 (quoted_controls 58252).2

/-! ## What a snapshot promises -/

variable [DecidableEq ρ] [DecidableEq σ]

theorem canonicalize_alike {value' : Value ρ} (h : value.Alike Eq value') (result : ConfigSnapshotValue) :
    canonicalizeConfigSnapshot value = .ok result ↔ canonicalizeConfigSnapshot value' = .ok result := by
  rw [canonicalizeConfigSnapshot_eq_ok, canonicalizeConfigSnapshot_eq_ok, accepted_iff h, canonical_eq h]

theorem canonicalize_again {result : ConfigSnapshotValue} (h : canonicalizeConfigSnapshot value = .ok result)
    {again : Value σ} (hdata : again.unlabelled = result) (hdistinct : again.objects.Nodup) :
    canonicalizeConfigSnapshot again = .ok result := by
  obtain ⟨haccepted, rfl⟩ := canonicalizeConfigSnapshot_eq_ok.mp h
  have hagain : SameJson again (canonical value) := hdata ▸ sameJson_unlabelled again
  have hvalue := sameJson_canonical value
  rw [canonicalizeConfigSnapshot_eq_ok]
  constructor
  · refine ⟨?_, hdistinct, ?_, ?_, ?_⟩
    · exact (admissible_iff hagain _).mpr ((admissible_iff hvalue _).mp haccepted.admissible)
    all_goals rw [cost_snd_eq hagain, ← cost_snd_eq hvalue]
    · exact haccepted.nodes
    · exact haccepted.properties
    · exact haccepted.bytes
  · exact (canonical_eq hvalue).trans (canonical_eq hagain).symm

/-- The bound holds for all values that have allowed numbers in their arrays if and only if none of these is long. -/
theorem canonicalizeConfigSnapshot_canonical [Inhabited ρ] :
    (∀ value value' : Value ρ, value.Alike Eq value' → ∀ result,
      canonicalizeConfigSnapshot value = .ok result ↔ canonicalizeConfigSnapshot value' = .ok result) ∧
    (∀ (value : Value ρ) (result : ConfigSnapshotValue), canonicalizeConfigSnapshot value = .ok result →
      SameJson value result ∧
      (∀ again : Value σ, again.unlabelled = result → again.objects.Nodup → canonicalizeConfigSnapshot again = .ok result) ∧
      (NoLongItems value → Bounded result)) ∧
    ∀ allowed : Number → Prop,
      (∀ (value : Value ρ) (result : ConfigSnapshotValue), ItemNumbers allowed value →
        canonicalizeConfigSnapshot value = .ok result → Bounded result) ↔ ∀ n, allowed n → ¬n.Long := by
  refine ⟨fun value value' h result => canonicalize_alike h result, fun value result h => ?_, fun allowed => ⟨fun hbounded n hn hlong => ?_, ?_⟩⟩
  · obtain ⟨haccepted, rfl⟩ := canonicalizeConfigSnapshot_eq_ok.mp h
    exact ⟨sameJson_canonical value, fun again hdata hdistinct => canonicalize_again h hdata hdistinct, haccepted.bounded⟩
  · let value : Value ρ := crowded default n (controls 58252)
    have haccepted : Accepted value := accepted_crowded default hlong.isFinite (length_controls _)
    have hitems : ItemNumbers allowed value := itemNumbers_crowded default _ hn
    have hok := canonicalizeConfigSnapshot_eq_ok.mpr ⟨haccepted, rfl⟩
    exact not_bounded_crowded_long default hlong (hbounded value (canonical value) hitems hok)
  · intro hallowed value result hitems h
    obtain ⟨haccepted, rfl⟩ := canonicalizeConfigSnapshot_eq_ok.mp h
    exact haccepted.bounded (hitems.mono hallowed)

def sample : Value Nat := .record 0 [asciiString [98], asciiString [97]] (by decide) ![.null, .array 1 1 fun _ => .number (.zero true)]

def reordered : Value Nat := .record 0 [asciiString [97], asciiString [98]] (by decide) ![.array 1 1 (fun _ => .number (.zero true)), .null]

theorem accepted_sample : Accepted sample := by
  refine ⟨⟨by decide, by decide, fun i => ?_⟩, by decide, by decide, by decide, by decide⟩
  fin_cases i
  · trivial
  · exact ⟨by decide, fun _ => rfl⟩

theorem sample_alike : sample.Alike Eq reordered := by
  refine .record rfl (.swap _ _ _) fun i => ?_
  fin_cases i
  · exact .array rfl fun _ => .number _
  · exact .null

theorem canonicalizeConfigSnapshot_canonical_sample :
    SameJson sample (canonical sample) ∧ canonicalizeConfigSnapshot reordered = .ok (canonical sample) ∧ Bounded (canonical sample) := by
  obtain ⟨hreordered, hsnapshot, -⟩ := @canonicalizeConfigSnapshot_canonical Nat Nat _ _ _
  have hok := canonicalizeConfigSnapshot_eq_ok.mpr ⟨accepted_sample, rfl⟩
  obtain ⟨hsame, -, hbounded⟩ := hsnapshot sample _ hok
  refine ⟨hsame, (hreordered sample reordered sample_alike _).mp hok, hbounded fun i => ?_⟩
  fin_cases i
  · trivial
  · exact fun j => ⟨fun n hn => Value.number.inj hn ▸ id, trivial⟩

/-- `-0.0000012345678901234567` -/
def longNumber : Number := .finite {
  negative := true
  digits := [1, 2, 3, 4, 5, 6, 7, 8, 9, 0, 1, 2, 3, 4, 5, 6, 7]
  exponent := -5
  nonempty := by decide
  length_le := by decide
  digit_le := by decide
  first_ne := by decide
  last_ne := by decide
  exponent_ge := by decide
  exponent_le := by decide }

/-- One byte more than the limit. -/
theorem canonicalizeConfigSnapshot_unbounded :
    canonicalizeConfigSnapshot (crowded () longNumber (controls 58252)) = .ok (canonical (crowded () longNumber (controls 58252))) ∧
      ¬Bounded (canonical (crowded () longNumber (controls 58252))) := by
  have hlong : longNumber.Long := ⟨rfl, rfl, rfl⟩
  exact ⟨canonicalizeConfigSnapshot_eq_ok.mpr ⟨accepted_crowded () hlong.isFinite (length_controls _), rfl⟩, not_bounded_crowded_long () hlong⟩

end Veryfront.Config.Snapshots
