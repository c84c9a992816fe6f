import Veryfront.Agent.AgUi.FinishExcerpts
import Veryfront.Agent.AgUi.FinishMetadata
import Veryfront.Cache.TextBytes

/-!
# Finish metadata fits

A record whose output and finish reason have been cut fits the payload of a run event, and it is cut no further than that
asks for. One number escapes: the total of the tokens is not checked after it has been summed.
-/

namespace Veryfront.Agent.AgUi.MessageFinish

open Lib

variable {ν : Type}

/-! ## Bytes -/

theorem getUtf8ByteLength_append_le (t u : Text) :
    getUtf8ByteLength (t ++ u) ≤ getUtf8ByteLength t + getUtf8ByteLength u := Cache.textEncode_append_le t u

theorem getUtf8ByteLength_ascii {t : Text} (h : ∀ unit ∈ t, unit < 128) : getUtf8ByteLength t = t.length := Cache.textEncode_ascii h

theorem getUtf8ByteLength_intercalate_le {texts : List Text} {bytes : Nat} (h : ∀ t ∈ texts, getUtf8ByteLength t ≤ bytes) :
    getUtf8ByteLength ([comma].intercalate texts) ≤ texts.length * (bytes + 1) := by
  induction texts with
  | nil => exact Nat.zero_le _
  | cons t texts ih =>
    have ht := h t List.mem_cons_self
    have hrest := ih fun u hu => h u (List.mem_cons_of_mem _ hu)
    cases texts with
    | nil =>
      rw [List.intercalate_singleton, List.length_singleton]
      omega
    | cons u texts =>
      rw [List.intercalate_cons_cons]
      have houter := getUtf8ByteLength_append_le (t ++ [comma]) ([comma].intercalate (u :: texts))
      have hinner := getUtf8ByteLength_append_le t [comma]
      have hcomma : getUtf8ByteLength [comma] = 1 := by decide
      rw [List.length_cons, Nat.succ_mul]
      omega

/-! ## Values of modest size -/

structure Modest (format : NumberFormat ν) (value : Json ν) (depth nodes bytes : Nat) : Prop where
  visited : ∀ visit : Visit, visit.nodeCount + nodes ≤ jsonValueMaxNodes →
    visit.serializedBytes + bytes ≤ jsonValueMaxSerializedBytes →
      ∃ after, snapshotVisit format value depth visit = some after ∧ after.nodeCount ≤ visit.nodeCount + nodes ∧
        after.serializedBytes ≤ visit.serializedBytes + bytes
  copied : ∀ remaining maxNodes, nodes ≤ remaining → nodes ≤ maxNodes →
    ∃ after, copyData value (depth + 1) remaining maxNodes = some after ∧ remaining ≤ after + nodes
  text : getUtf8ByteLength (stringify format value) ≤ bytes

variable {format : NumberFormat ν} {depth nodes bytes : Nat}

theorem Visit.addSerializedBytes_of_le (visit : Visit) (amount : Nat)
    (h : visit.serializedBytes + amount ≤ jsonValueMaxSerializedBytes) :
    visit.addSerializedBytes amount = some { visit with serializedBytes := visit.serializedBytes + amount } := by
  rw [Visit.addSerializedBytes, if_pos h]

theorem Modest.mono {value : Json ν} (h : Modest format value depth nodes bytes) {nodes' bytes' : Nat} (hnodes : nodes ≤ nodes')
    (hbytes : bytes ≤ bytes') : Modest format value depth nodes' bytes' where
  visited visit hcount hsize := by
    obtain ⟨after, hvisit, hafter, hserialized⟩ := h.visited visit (by omega) (by omega)
    exact ⟨after, hvisit, by omega, by omega⟩
  copied remaining maxNodes hremaining hmax := by
    obtain ⟨after, hcopy, hafter⟩ := h.copied remaining maxNodes (by omega) (by omega)
    exact ⟨after, hcopy, by omega⟩
  text := Nat.le_trans h.text hbytes

theorem modest_str {value : Text} (hdepth : depth < 128) (hlength : utf8LengthWithin value jsonValueMaxStringBytes = true)
    (hbytes : getUtf8ByteLength (Cache.jsonQuote value) ≤ bytes) : Modest format (.str value) depth 1 bytes where
  visited visit hcount hsize := by
    have hroom : ¬ (jsonValueMaxDepth < depth ∨ jsonValueMaxNodes < visit.nodeCount + 1) := by
      unfold jsonValueMaxDepth
      omega
    refine ⟨⟨visit.nodeCount + 1, visit.serializedBytes + getUtf8ByteLength (Cache.jsonQuote value)⟩, ?_, Nat.le_refl _,
      Nat.add_le_add_left hbytes _⟩
    simp only [snapshotVisit, if_neg hroom, hlength, if_true]
    exact Visit.addSerializedBytes_of_le _ _ (by show visit.serializedBytes + _ ≤ _; omega)
  copied remaining maxNodes hremaining hmax := by
    refine ⟨remaining - 1, ?_, by omega⟩
    have hroom : ¬ (remaining = 0 ∨ 128 < depth + 1) := by omega
    simp only [copyData, if_neg hroom]
  text := by rwa [stringify]

theorem modest_num (n : ν) (hdepth : depth < 128) : Modest format (.num n) depth 1 25 where
  visited visit hcount hsize := by
    have hroom : ¬ (jsonValueMaxDepth < depth ∨ jsonValueMaxNodes < visit.nodeCount + 1) := by
      unfold jsonValueMaxDepth
      omega
    have htext : getUtf8ByteLength (format.text n) ≤ 25 :=
      (getUtf8ByteLength_ascii (format.ascii_text n)).le.trans (format.length_text n)
    refine ⟨⟨visit.nodeCount + 1, visit.serializedBytes + getUtf8ByteLength (format.text n)⟩, ?_, Nat.le_refl _,
      Nat.add_le_add_left htext _⟩
    simp only [snapshotVisit, if_neg hroom]
    exact Visit.addSerializedBytes_of_le _ _ (by show visit.serializedBytes + _ ≤ _; omega)
  copied remaining maxNodes hremaining hmax := by
    refine ⟨remaining - 1, ?_, by omega⟩
    have hroom : ¬ (remaining = 0 ∨ 128 < depth + 1) := by omega
    simp only [copyData, if_neg hroom]
  text := by
    rw [stringify, getUtf8ByteLength_ascii (format.ascii_text n)]
    exact format.length_text n

/-! ### Arrays -/

variable {items : List (Json ν)}

theorem visitItems_modest (h : ∀ item ∈ items, Modest format item depth nodes bytes) (visit : Visit)
    (hcount : visit.nodeCount + items.length * nodes ≤ jsonValueMaxNodes)
    (hsize : visit.serializedBytes + items.length * bytes ≤ jsonValueMaxSerializedBytes) :
    ∃ after, visitItems format items depth visit = some after ∧ after.nodeCount ≤ visit.nodeCount + items.length * nodes ∧
      after.serializedBytes ≤ visit.serializedBytes + items.length * bytes := by
  induction items generalizing visit with
  | nil => exact ⟨visit, rfl, by simp, by simp⟩
  | cons item items ih =>
    rw [List.length_cons, Nat.succ_mul] at hcount hsize
    obtain ⟨mid, hvisit, hmid, hserialized⟩ := (h item List.mem_cons_self).visited visit (by omega) (by omega)
    obtain ⟨after, hrest, hafter, hafterSerialized⟩ :=
      ih (fun i hi => h i (List.mem_cons_of_mem _ hi)) mid (by omega) (by omega)
    refine ⟨after, by rw [visitItems, hvisit, Option.bind_some, hrest], ?_, ?_⟩ <;> rw [List.length_cons, Nat.succ_mul] <;> omega

theorem copyItems_modest (h : ∀ item ∈ items, Modest format item depth nodes bytes)
    (remaining maxNodes : Nat) (hremaining : items.length * nodes ≤ remaining) (hmax : nodes ≤ maxNodes) :
    ∃ after, copyItems items (depth + 1) remaining maxNodes = some after ∧ remaining ≤ after + items.length * nodes := by
  induction items generalizing remaining with
  | nil => exact ⟨remaining, rfl, by simp⟩
  | cons item items ih =>
    rw [List.length_cons, Nat.succ_mul] at hremaining
    obtain ⟨mid, hcopy, hmid⟩ := (h item List.mem_cons_self).copied remaining maxNodes (by omega) hmax
    obtain ⟨after, hrest, hafter⟩ := ih (fun i hi => h i (List.mem_cons_of_mem _ hi)) mid (by omega)
    refine ⟨after, by rw [copyItems, hcopy, Option.bind_some, hrest], ?_⟩
    rw [List.length_cons, Nat.succ_mul]
    omega

theorem stringifyItems_modest (h : ∀ item ∈ items, Modest format item depth nodes bytes) :
    (stringifyItems format items).length = items.length ∧
      ∀ t ∈ stringifyItems format items, getUtf8ByteLength t ≤ bytes := by
  induction items with
  | nil => exact ⟨rfl, fun _ ht => nomatch ht⟩
  | cons item items ih =>
    obtain ⟨hlength, hrest⟩ := ih fun i hi => h i (List.mem_cons_of_mem _ hi)
    refine ⟨congrArg (· + 1) hlength, fun t ht => ?_⟩
    rcases List.mem_cons.mp ht with rfl | ht
    · exact (h item List.mem_cons_self).text
    · exact hrest t ht

theorem getUtf8ByteLength_enclosed_le {texts : List Text} (opening closing : Nat) {bytes : Nat} (hopening : opening < 128)
    (hclosing : closing < 128) (h : ∀ t ∈ texts, getUtf8ByteLength t ≤ bytes) :
    getUtf8ByteLength (opening :: [comma].intercalate texts ++ [closing]) ≤ 2 + texts.length * (bytes + 1) := by
  have hjoined := getUtf8ByteLength_intercalate_le h
  have hall := getUtf8ByteLength_append_le (opening :: [comma].intercalate texts) [closing]
  have hfront := getUtf8ByteLength_append_le [opening] ([comma].intercalate texts)
  have hone : ∀ unit < 128, getUtf8ByteLength [unit] = 1 := fun unit hunit =>
    getUtf8ByteLength_ascii fun u hu => by rwa [List.mem_singleton.mp hu]
  rw [List.singleton_append, hone opening hopening] at hfront
  rw [hone closing hclosing] at hall
  omega

theorem modest_arr (hdepth : depth + 1 < 128) (hnodes : 1 ≤ nodes)
    (h : ∀ item ∈ items, Modest format item (depth + 1) nodes bytes) :
    Modest format (.arr items) depth (2 + items.length * nodes) (2 + items.length * (bytes + 1)) where
  visited visit hcount hsize := by
    have hroom : ¬ (jsonValueMaxDepth < depth ∨ jsonValueMaxNodes < visit.nodeCount + 1) := by
      unfold jsonValueMaxDepth
      omega
    have hlength : items.length ≤ items.length * nodes := Nat.le_mul_of_pos_right _ hnodes
    rw [Nat.mul_add_one] at hsize
    have hadd : ({ visit with nodeCount := visit.nodeCount + 1 } : Visit).addSerializedBytes (2 + (items.length - 1)) =
        some ⟨visit.nodeCount + 1, visit.serializedBytes + (2 + (items.length - 1))⟩ :=
      Visit.addSerializedBytes_of_le _ _ (by show visit.serializedBytes + _ ≤ _; omega)
    obtain ⟨after, hvisit, hafter, hserialized⟩ := visitItems_modest h
      ⟨visit.nodeCount + 1, visit.serializedBytes + (2 + (items.length - 1))⟩
      (by show visit.nodeCount + 1 + _ ≤ _; omega) (by show visit.serializedBytes + (2 + (items.length - 1)) + _ ≤ _; omega)
    refine ⟨after, ?_, ?_, ?_⟩
    · simp only [snapshotVisit, if_neg hroom]
      rw [if_neg (by omega), hadd, Option.bind_some, hvisit]
    · simp only at hafter
      omega
    · rw [Nat.mul_add_one]
      simp only at hserialized
      omega
  copied remaining maxNodes hremaining hmax := by
    have hlength : items.length ≤ items.length * nodes := Nat.le_mul_of_pos_right _ hnodes
    by_cases hempty : items = []
    · subst hempty
      refine ⟨remaining - 2, ?_, by simp at hremaining ⊢; omega⟩
      simp only [List.length_nil, Nat.zero_mul] at hremaining
      have hroom : ¬ (remaining = 0 ∨ 128 < depth + 1) := by omega
      have hlast : ¬ (remaining - 1 = 0 ∨ 128 < depth + 1 + 1) := by omega
      simp only [copyData, if_neg hroom, List.length_nil, Nat.not_lt_zero, if_false, copyItems, Option.bind_some, if_neg hlast]
      rfl
    have hone : nodes ≤ items.length * nodes := Nat.le_mul_of_pos_left _ (List.length_pos_iff.mpr hempty)
    obtain ⟨after, hcopy, hafter⟩ := copyItems_modest h (remaining - 1) maxNodes (by omega) (by omega)
    refine ⟨after - 1, ?_, by omega⟩
    have hroom : ¬ (remaining = 0 ∨ 128 < depth + 1) := by omega
    have hwide : ¬ maxNodes < items.length := by omega
    have hlast : ¬ (after = 0 ∨ 128 < depth + 1 + 1) := by omega
    simp only [copyData, if_neg hroom, if_neg hwide, hcopy, Option.bind_some, if_neg hlast]
  text := by
    obtain ⟨hlength, htexts⟩ := stringifyItems_modest h
    have := getUtf8ByteLength_enclosed_le 91 93 (by decide) (by decide) htexts
    rwa [hlength] at this

/-! ### Records -/

theorem visitProperties_eq (properties : List (Text × Json ν)) (depth : Nat) (visit : Visit) :
    visitProperties format properties depth visit = visitItems format (properties.map Prod.snd) depth visit := by
  induction properties generalizing visit with
  | nil => rfl
  | cons property properties ih =>
    rw [List.map_cons, visitProperties, visitItems]
    exact congrArg _ (funext ih)

theorem copyProperties_eq (properties : List (Text × Json ν)) (depth remaining maxNodes : Nat) :
    copyProperties properties depth remaining maxNodes = copyItems (properties.map Prod.snd) depth remaining maxNodes := by
  induction properties generalizing remaining with
  | nil => rfl
  | cons property properties ih =>
    rw [List.map_cons, copyProperties, copyItems]
    exact congrArg _ (funext ih)

/-- The keys and texts of the records below are no longer. -/
def shortTextBytes : Nat := 64

def ShortText (text : Text) : Prop :=
  utf8LengthWithin text maxKeyBytes = true ∧ getUtf8ByteLength (Cache.jsonQuote text) ≤ shortTextBytes

instance (text : Text) : Decidable (ShortText text) := inferInstanceAs (Decidable (_ ∧ _))

/-- A text of characters that the serializer leaves as they are. -/
def Plain (text : Text) : Prop := ∀ unit ∈ text, 32 ≤ unit ∧ unit < 128 ∧ unit ≠ 34 ∧ unit ≠ 92

theorem jsonQuote_plain {text : Text} (h : Plain text) : Cache.jsonQuote text = 34 :: text ++ [34] := by
  have hpoints : codePoints text = text := by
    induction text with
    | nil => rfl
    | cons unit text ih =>
      have hunit := h unit List.mem_cons_self
      rw [codePoints_cons (Bool.eq_false_of_not_eq_true (by rw [isHighSurrogate_iff]; omega)),
        ih fun u hu => h u (List.mem_cons_of_mem _ hu)]
  have hescapes : ∀ units : Text, Plain units → units.flatMap Cache.jsonEscape = units := by
    intro units hunits
    induction units with
    | nil => rfl
    | cons unit units ih =>
      obtain ⟨hlow, hhigh, hquote, hslash⟩ := hunits unit List.mem_cons_self
      have hnamed : Cache.jsonNamed.lookup unit = none := by
        rw [List.lookup_eq_none_iff]
        simp only [Cache.jsonNamed, List.mem_cons, List.not_mem_nil, or_false, forall_eq_or_imp, forall_eq, bne_iff_ne]
        omega
      have hplain : isSurrogate unit = false := Bool.eq_false_of_not_eq_true (by rw [isSurrogate_iff]; omega)
      have hescape : Cache.jsonEscape unit = [unit] := by
        have hnext : ¬ unit < 32 := Nat.not_lt.mpr hlow
        have hone : unit < 0x10000 := by omega
        simp [Cache.jsonEscape, hnamed, hnext, hplain, unitsOf, hone]
      rw [List.flatMap_cons, hescape, ih fun u hu => hunits u (List.mem_cons_of_mem _ hu), List.singleton_append]
  rw [Cache.jsonQuote, hpoints, hescapes text h]

theorem shortText_ofList {letters : List Char} (hlength : letters.length ≤ 62)
    (hletters : (letters.all fun c => 32 ≤ c.toNat && c.toNat < 128 && c.toNat != 34 && c.toNat != 92) = true) :
    ShortText (.of (String.ofList letters)) := by
  have hplain : ∀ c ∈ letters, 32 ≤ c.toNat ∧ c.toNat < 128 ∧ c.toNat ≠ 34 ∧ c.toNat ≠ 92 := by
    simpa [and_assoc] using hletters
  have htext : Text.of (String.ofList letters) = letters.map Char.toNat := by
    rw [Text.of, String.toList_ofList, List.map_eq_flatMap]
    refine List.flatMap_congr fun c hc => ?_
    rw [Text.units, if_pos (by have := hplain c hc; omega)]
  have hunits : Plain (letters.map Char.toNat) := by
    intro unit hunit
    obtain ⟨c, hc, rfl⟩ := List.mem_map.mp hunit
    exact hplain c hc
  have hbytes := getUtf8ByteLength_ascii fun unit hunit => (hunits unit hunit).2.1
  have hquoted : getUtf8ByteLength (Cache.jsonQuote (letters.map Char.toNat)) = letters.length + 2 := by
    rw [jsonQuote_plain hunits, getUtf8ByteLength_ascii fun unit hunit => ?_]
    · simp
    · simp only [List.cons_append, List.mem_cons, List.mem_append, List.not_mem_nil, or_false] at hunit
      rcases hunit with rfl | hunit | rfl
      · decide
      · exact (hunits unit hunit).2.1
      · decide
  rw [htext]
  refine ⟨?_, by rw [hquoted, shortTextBytes]; omega⟩
  rw [utf8LengthWithin, hbytes, List.length_map, Bool.and_self, decide_eq_true_eq]
  exact hlength.trans (by decide)

theorem modest_shortText {text : Text} (h : ShortText text) (hdepth : depth < 128) :
    Modest format (.str text) depth 1 shortTextBytes := by
  refine modest_str hdepth ?_ h.2
  have hlength := h.1
  rw [utf8LengthWithin, Bool.and_eq_true, decide_eq_true_eq, decide_eq_true_eq] at hlength ⊢
  exact ⟨hlength.1.trans (by decide), hlength.2.trans (by decide)⟩

variable {properties : List (Text × Json ν)}

theorem visitKeys_short (h : ∀ property ∈ properties, ShortText property.1) (visit : Visit)
    (hsize : visit.serializedBytes + properties.length * (shortTextBytes + 1) ≤ jsonValueMaxSerializedBytes) :
    ∃ after, visitKeys properties visit = some after ∧ after.nodeCount = visit.nodeCount ∧
      after.serializedBytes ≤ visit.serializedBytes + properties.length * (shortTextBytes + 1) := by
  induction properties generalizing visit with
  | nil => exact ⟨visit, rfl, rfl, by simp⟩
  | cons property properties ih =>
    obtain ⟨hlength, hbytes⟩ := h property List.mem_cons_self
    rw [List.length_cons, Nat.succ_mul] at hsize ⊢
    have hadd := visit.addSerializedBytes_of_le (getUtf8ByteLength (Cache.jsonQuote property.1) + 1) (by omega)
    obtain ⟨after, hrest, hcount, hserialized⟩ := ih (fun p hp => h p (List.mem_cons_of_mem _ hp))
      { visit with serializedBytes := visit.serializedBytes + (getUtf8ByteLength (Cache.jsonQuote property.1) + 1) }
      (by show visit.serializedBytes + (getUtf8ByteLength (Cache.jsonQuote property.1) + 1) + _ ≤ _; omega)
    refine ⟨after, ?_, hcount, ?_⟩
    · rw [visitKeys, if_pos hlength, hadd, Option.bind_some, hrest]
    · simp only at hserialized
      omega

theorem stringifyProperties_modest (hkeys : ∀ property ∈ properties, ShortText property.1)
    (h : ∀ property ∈ properties, Modest format property.2 depth nodes bytes) :
    (stringifyProperties format properties).length = properties.length ∧
      ∀ t ∈ stringifyProperties format properties, getUtf8ByteLength t ≤ shortTextBytes + 1 + bytes := by
  induction properties with
  | nil => exact ⟨rfl, fun _ ht => nomatch ht⟩
  | cons property properties ih =>
    obtain ⟨hlength, hrest⟩ := ih (fun p hp => hkeys p (List.mem_cons_of_mem _ hp)) fun p hp => h p (List.mem_cons_of_mem _ hp)
    refine ⟨congrArg (· + 1) hlength, fun t ht => ?_⟩
    rcases List.mem_cons.mp ht with rfl | ht
    · have hkey := (hkeys property List.mem_cons_self).2
      have hvalue := (h property List.mem_cons_self).text
      have hcolon : getUtf8ByteLength [58] = 1 := by decide
      have houter := getUtf8ByteLength_append_le (Cache.jsonQuote property.1) (58 :: stringify format property.2)
      have hinner := getUtf8ByteLength_append_le [58] (stringify format property.2)
      rw [List.singleton_append] at hinner
      omega
    · exact hrest t ht

theorem modest_obj (hdepth : depth < 128) (hnodes : 1 ≤ nodes)
    (hkeys : ∀ property ∈ properties, ShortText property.1)
    (h : ∀ property ∈ properties, Modest format property.2 (depth + 1) nodes bytes) :
    Modest format (.obj properties) depth (1 + properties.length * nodes)
      (2 + properties.length * (shortTextBytes + 2 + bytes)) where
  visited visit hcount hsize := by
    have hroom : ¬ (jsonValueMaxDepth < depth ∨ jsonValueMaxNodes < visit.nodeCount + 1) := by
      unfold jsonValueMaxDepth
      omega
    have hlength : properties.length ≤ properties.length * nodes := Nat.le_mul_of_pos_right _ hnodes
    have hsplit : properties.length * (shortTextBytes + 2 + bytes) =
        properties.length + properties.length * (shortTextBytes + 1) + properties.length * bytes := by ring
    have hadd : ({ visit with nodeCount := visit.nodeCount + 1 } : Visit).addSerializedBytes (2 + (properties.length - 1)) =
        some ⟨visit.nodeCount + 1, visit.serializedBytes + (2 + (properties.length - 1))⟩ :=
      Visit.addSerializedBytes_of_le _ _ (by show visit.serializedBytes + _ ≤ _; omega)
    obtain ⟨mid, hkeysVisit, hmid, hmidSerialized⟩ := visitKeys_short hkeys
      ⟨visit.nodeCount + 1, visit.serializedBytes + (2 + (properties.length - 1))⟩
      (by show visit.serializedBytes + (2 + (properties.length - 1)) + _ ≤ _; omega)
    simp only at hmid hmidSerialized
    have hvalues : ∀ item ∈ properties.map Prod.snd, Modest format item (depth + 1) nodes bytes :=
      List.forall_mem_map.mpr h
    obtain ⟨after, hvisit, hafter, hserialized⟩ := visitItems_modest hvalues mid
      (by rw [List.length_map]; omega) (by rw [List.length_map]; omega)
    rw [List.length_map] at hafter hserialized
    refine ⟨after, ?_, by omega, by omega⟩
    simp only [snapshotVisit, if_neg hroom]
    rw [if_neg (by omega), hadd, Option.bind_some, hkeysVisit, Option.bind_some, visitProperties_eq, hvisit]
  copied remaining maxNodes hremaining hmax := by
    have hroom : ¬ (remaining = 0 ∨ 128 < depth + 1) := by omega
    by_cases hempty : properties = []
    · subst hempty
      refine ⟨remaining - 1, ?_, by omega⟩
      simp only [copyData, if_neg hroom, copyProperties]
    have hone : nodes ≤ properties.length * nodes := Nat.le_mul_of_pos_left _ (List.length_pos_iff.mpr hempty)
    have hvalues : ∀ item ∈ properties.map Prod.snd, Modest format item (depth + 1) nodes bytes :=
      List.forall_mem_map.mpr h
    obtain ⟨after, hcopy, hafter⟩ := copyItems_modest hvalues (remaining - 1) maxNodes
      (by rw [List.length_map]; omega) (by omega)
    rw [List.length_map] at hafter
    refine ⟨after, ?_, by omega⟩
    simp only [copyData, if_neg hroom, copyProperties_eq, hcopy]
  text := by
    obtain ⟨hlength, htexts⟩ := stringifyProperties_modest hkeys h
    have := getUtf8ByteLength_enclosed_le 123 125 (by decide) (by decide) htexts
    rw [hlength] at this
    exact this.trans (by rw [show shortTextBytes + 1 + bytes + 1 = shortTextBytes + 2 + bytes by omega])

/-! ## Usage -/

/-- A usage field that JSON can hold. -/
structure UsageValue.Short (value : UsageValue ν) : Prop where
  finite : value ≠ .infinite
  text : ∀ t, value = .text t → ShortText t

def usageKeys : List String :=
  ["inputTokens", "outputTokens", "totalTokens", "cachedInputTokens"] ++ copiedNumbers ++ copiedTexts.map Prod.fst

theorem usageKeys_short : ∀ key ∈ usageKeys, ShortText (.of key) := by
  simp only [usageKeys, copiedNumbers, copiedTexts, List.map_cons, List.map_nil, List.cons_append, List.nil_append]
  repeat refine List.forall_mem_cons.mpr ⟨shortText_ofList (by decide) (by decide), ?_⟩
  exact nofun

theorem copiedTexts_short : ∀ field ∈ copiedTexts, ∀ value ∈ field.2, ShortText (.of value) := by
  simp only [copiedTexts, List.forall_mem_cons]
  refine ⟨?_, ?_, ?_, nofun⟩
  all_goals
    repeat refine ⟨shortText_ofList (by decide) (by decide), ?_⟩
    exact nofun

theorem length_usageField_le (key : String) (value : Option (UsageValue ν)) : (usageField key value).length ≤ 1 := by
  cases value <;> simp [usageField]

theorem length_flatMap_le {α β : Type} {f : α → List β} (items : List α) (h : ∀ item ∈ items, (f item).length ≤ 1) :
    (items.flatMap f).length ≤ items.length := by
  induction items with
  | nil => exact Nat.le_refl _
  | cons item items ih =>
    have hitem := h item List.mem_cons_self
    have hrest := ih fun i hi => h i (List.mem_cons_of_mem _ hi)
    rw [List.flatMap_cons, List.length_append, List.length_cons]
    omega

theorem length_usageMetadata_le (format : NumberFormat ν) (usage : List (Text × Json ν)) :
    (usageMetadata format usage).length ≤ 22 := by
  have hnumbers := length_flatMap_le (f := copyNumberMetadata format usage) copiedNumbers
    fun key _ => length_usageField_le key _
  have htexts := length_flatMap_le (f := fun field => copyTextMetadata usage field.1 field.2) copiedTexts
    fun field _ => by rw [copyTextMetadata]; exact length_usageField_le ..
  have hinput := length_usageField_le "inputTokens" ((inputTokens format usage).map UsageValue.number)
  have houtput := length_usageField_le "outputTokens" ((outputTokens format usage).map UsageValue.number)
  have htotal := length_usageField_le "totalTokens" (totalTokens format usage)
  have hcached := length_usageField_le "cachedInputTokens" ((cachedInputTokens format usage).map UsageValue.number)
  rw [show copiedNumbers.length = 15 from rfl] at hnumbers
  rw [show copiedTexts.length = 3 from rfl] at htexts
  simp only [usageMetadata, List.length_append]
  omega

theorem mem_usageField {key : String} {value : Option (UsageValue ν)} {field : Text × UsageValue ν}
    (h : field ∈ usageField key value) : field.1 = .of key ∧ value = some field.2 := by
  obtain ⟨v, hv, rfl⟩ := List.mem_map.mp h
  exact ⟨rfl, Option.mem_toList.mp hv⟩

theorem short_number {value : Option ν} {field : UsageValue ν} (h : value.map UsageValue.number = some field) : field.Short := by
  obtain ⟨n, -, rfl⟩ := Option.map_eq_some_iff.mp h
  exact ⟨by simp, by simp⟩

theorem usageMetadata_short {usage : List (Text × Json ν)} (hfinite : totalTokens format usage ≠ some .infinite) :
    ∀ field ∈ usageMetadata format usage, ShortText field.1 ∧ field.2.Short := by
  intro field hfield
  have hkey : ∀ {key : String} {value : Option (UsageValue ν)}, field ∈ usageField key value → key ∈ usageKeys →
      ShortText field.1 := fun h hmem => (mem_usageField h).1 ▸ usageKeys_short _ hmem
  simp only [usageMetadata, List.mem_append] at hfield
  rcases hfield with ((((hfield | hfield) | hfield) | hfield) | hfield) | hfield
  · exact ⟨hkey hfield (by decide), short_number (mem_usageField hfield).2⟩
  · exact ⟨hkey hfield (by decide), short_number (mem_usageField hfield).2⟩
  · refine ⟨hkey hfield (by decide), ?_⟩
    have htotal := (mem_usageField hfield).2
    refine ⟨fun hinfinite => hfinite (hinfinite ▸ htotal), fun t ht => ?_⟩
    rw [ht, totalTokens] at htotal
    split at htotal
    · simp at htotal
    split at htotal
    · split at htotal <;> simp at htotal
    · simp at htotal
  · exact ⟨hkey hfield (by decide), short_number (mem_usageField hfield).2⟩
  · obtain ⟨key, hmem, hfield⟩ := List.mem_flatMap.mp hfield
    exact ⟨hkey hfield (by simp [usageKeys, hmem]), short_number (mem_usageField hfield).2⟩
  · obtain ⟨copied, hmem, hfield⟩ := List.mem_flatMap.mp hfield
    refine ⟨hkey hfield (by simp only [usageKeys, List.mem_append, List.mem_map]; exact .inr ⟨copied, hmem, rfl⟩), ?_⟩
    have hvalue := (mem_usageField hfield).2
    split at hvalue
    · next value _ =>
      split at hvalue
      · next hknown =>
        rw [← Option.some.inj hvalue]
        rw [List.contains_iff_mem, List.mem_map] at hknown
        obtain ⟨known, hknown, rfl⟩ := hknown
        exact ⟨by simp, fun t ht => by injection ht with ht; exact ht ▸ copiedTexts_short copied hmem known hknown⟩
      · nomatch hvalue
    · nomatch hvalue

theorem UsageValue.Short.modest (format : NumberFormat ν) {value : UsageValue ν} (h : value.Short) (hdepth : depth < 128) :
    ∃ json, value.toJson = some json ∧ Modest format json depth 1 shortTextBytes := by
  cases value with
  | number n => exact ⟨.num n, rfl, (modest_num n hdepth).mono (Nat.le_refl _) (by decide)⟩
  | infinite => exact absurd rfl h.finite
  | text t => exact ⟨.str t, rfl, modest_shortText (h.text t rfl) hdepth⟩

variable {fields : List (Text × UsageValue ν)}

theorem usage_toJson (format : NumberFormat ν) (hdepth : depth < 128)
    (h : ∀ field ∈ fields, ShortText field.1 ∧ field.2.Short) :
    ∃ properties, (fields.mapM fun (field : Text × UsageValue ν) => field.2.toJson.map (Prod.mk field.1)) = some properties ∧
      properties.length = fields.length ∧
      ∀ property ∈ properties, ShortText property.1 ∧ Modest format property.2 depth 1 shortTextBytes := by
  induction fields with
  | nil => exact ⟨[], rfl, rfl, fun _ hp => nomatch hp⟩
  | cons field fields ih =>
    obtain ⟨hkey, hvalue⟩ := h field List.mem_cons_self
    obtain ⟨json, hjson, hmodest⟩ := hvalue.modest format hdepth
    obtain ⟨properties, hrest, hlength, hproperties⟩ := ih fun f hf => h f (List.mem_cons_of_mem _ hf)
    refine ⟨(field.1, json) :: properties, ?_, congrArg (· + 1) hlength, fun property hp => ?_⟩
    · rw [List.mapM_cons, hjson, hrest]
      rfl
    · rcases List.mem_cons.mp hp with rfl | hp
      · exact ⟨hkey, hmodest⟩
      · exact hproperties property hp

theorem usage_toJson_infinite {key : Text} (h : (key, .infinite) ∈ fields) :
    (fields.mapM fun (field : Text × UsageValue ν) => field.2.toJson.map (Prod.mk field.1)) = none := by
  induction fields with
  | nil => nomatch h
  | cons field fields ih =>
    rw [List.mapM_cons]
    rcases List.mem_cons.mp h with rfl | h
    · rfl
    · rw [ih h]
      cases field.2.toJson <;> rfl

/-! ## What is left of a record that has been cut -/

theorem reason_short {reasons : List Text} (h : WellNoted reasons) : ∀ reason ∈ reasons, ShortText reason := by
  intro reason hreason
  have hknown : ∀ r ∈ [Reason.aggregateBudgetExhausted, Reason.stringTruncated, Reason.depthReached, Reason.arrayTruncated,
      Reason.objectKeyUnsupported, Reason.objectKeysTruncated], ShortText r := by
    repeat refine List.forall_mem_cons.mpr ⟨shortText_ofList (by decide) (by decide), ?_⟩
    exact nofun
  exact hknown reason (h.known hreason)

theorem modest_reasons {reason : Text} (h : ShortText reason) : Modest format (.arr [.str reason]) 2 3 67 := by
  have hitems : ∀ item ∈ [Json.str reason], Modest format item 3 1 shortTextBytes := by
    simpa using modest_shortText h (by decide)
  exact modest_arr (by decide) (Nat.le_refl 1) hitems

theorem modest_observation {key key' : Text} {first second : Json ν} (hkey : ShortText key) (hkey' : ShortText key')
    (hfirst : Modest format first 2 3 67) (hsecond : Modest format second 2 3 67) :
    Modest format (.obj [(Observed.captureStatus, .str Observed.isPartial), (key, first), (key', second)]) 1 10 401 := by
  have hstatus : ShortText Observed.captureStatus ∧ ShortText Observed.isPartial :=
    ⟨shortText_ofList (by decide) (by decide), shortText_ofList (by decide) (by decide)⟩
  have hvalue : Modest format (.str Observed.isPartial) 2 3 67 :=
    (modest_shortText hstatus.2 (by decide)).mono (by decide) (by decide)
  have hkeys : ∀ property ∈ [(Observed.captureStatus, Json.str Observed.isPartial), (key, first), (key', second)],
      ShortText property.1 := by simp [hstatus.1, hkey, hkey']
  have hvalues : ∀ property ∈ [(Observed.captureStatus, Json.str Observed.isPartial), (key, first), (key', second)],
      Modest format property.2 2 3 67 := by simp [hvalue, hfirst, hsecond]
  have hobj := modest_obj (by decide) (by decide) hkeys hvalues
  rw [show List.length [(Observed.captureStatus, Json.str Observed.isPartial), (key, first), (key', second)] = 3 from rfl] at hobj
  exact hobj.mono (by decide) (by decide)

theorem modest_scalarObservation {reason : Text} (h : ShortText reason) :
    Modest format (createTruncatedScalarObservation Key.finishReason reason) 1 10 401 := by
  have hfield : ShortText Key.field := shortText_ofList (by decide) (by decide)
  have hreasons : ShortText Observed.reasons := shortText_ofList (by decide) (by decide)
  have hfinish : ShortText Key.finishReason := shortText_ofList (by decide) (by decide)
  exact modest_observation hfield hreasons
    ((modest_shortText hfinish (by decide)).mono (by decide) (by decide)) (modest_reasons h)

theorem serializedBudgetExhausted_short : ShortText serializedBudgetExhausted := shortText_ofList (by decide) (by decide)

theorem modest_objectObservation :
    Modest format (createTruncatedObjectObservation serializedBudgetExhausted) 1 10 401 := by
  have hreasons : ShortText Observed.reasons := shortText_ofList (by decide) (by decide)
  have hvalue : ShortText Observed.value := shortText_ofList (by decide) (by decide)
  have htruncated : ShortText truncatedBudget := shortText_ofList (by decide) (by decide)
  exact modest_observation hreasons hvalue (modest_reasons serializedBudgetExhausted_short)
    ((modest_shortText htruncated (by decide)).mono (by decide) (by decide))

theorem durableEvent_modest {value : Json ν} (h : Modest format value 0 70 8786) :
    ∃ properties, durableEvent format value = .obj properties ∧ properties.length = 6 ∧
      (∀ property ∈ properties, ShortText property.1) ∧ ∀ property ∈ properties, Modest format property.2 0 70 8786 := by
  have hkeys : ShortText (.of "runtime") ∧ ShortText (.of "kind") ∧ ShortText (.of "value") ∧ ShortText (.of "type") ∧
      ShortText (.of "elapsedMs") ∧ ShortText (.of "emittedAt") := by
    refine ⟨?_, ?_, ?_, ?_, ?_, ?_⟩ <;> exact shortText_ofList (by decide) (by decide)
  have htexts : ShortText (.of "veryfront") ∧ ShortText (.of "message_finish_metadata") ∧
      ShortText (.of "RUNTIME_EVENT_RECORDED") := by
    refine ⟨?_, ?_, ?_⟩ <;> exact shortText_ofList (by decide) (by decide)
  have htext : ∀ {text : Text}, ShortText text → Modest format (.str text) 0 70 8786 := fun hshort =>
    (modest_shortText hshort (by decide)).mono (by decide) (by decide)
  have hnumber : Modest format (.num format.maxValue) 0 70 8786 := (modest_num _ (by decide)).mono (by decide) (by decide)
  refine ⟨_, rfl, rfl, ?_, ?_⟩
  · simp [hkeys]
  · simp [h, hnumber, htext htexts.1, htext htexts.2.1, htext htexts.2.2]

variable {value : MetadataValue ν}

theorem isWithinDurableBudget_of_modest {json : Json ν} (hjson : value.toJson = some json)
    (h : Modest format json 0 70 8786) : isWithinDurableBudget format value = true := by
  obtain ⟨visit, hvisit, -⟩ := h.visited {} (by decide) (by decide)
  obtain ⟨properties, hdurable, hlength, hkeys, hvalues⟩ := durableEvent_modest h
  obtain ⟨after, hcopy, -⟩ := copyItems_modest (List.forall_mem_map.mpr hvalues)
    (maxConversationRunEventAppendRequestBytes - 1) maxConversationRunEventAppendRequestBytes
    (by rw [List.length_map, hlength]; decide) (by decide)
  obtain ⟨htextsLength, htexts⟩ := stringifyProperties_modest hkeys hvalues
  have hbytes := getUtf8ByteLength_enclosed_le 123 125 (by decide) (by decide) htexts
  rw [htextsLength, hlength] at hbytes
  have hcopied : copyData (durableEvent format json) 0 maxConversationRunEventAppendRequestBytes
      maxConversationRunEventAppendRequestBytes = some after := by
    rw [hdurable, copyData, if_neg (by decide)]
    simp only [copyProperties_eq]
    exact hcopy
  have htext : getUtf8ByteLength (stringify format (durableEvent format json)) ≤ maxConversationRunEventPayloadBytes := by
    rw [hdurable, stringify]
    exact hbytes.trans (by decide)
  simp only [isWithinDurableBudget, getMessageFinishMetadataDurableByteLength, admitted, hjson, Option.bind_some, hvisit,
    Option.map_some, privateJsonStringify, hcopied, Option.any_some, decide_eq_true_eq]
  exact htext

def ShortUsage (fields : List (Text × UsageValue ν)) : Prop :=
  fields.length ≤ 22 ∧ ∀ field ∈ fields, ShortText field.1 ∧ field.2.Short

theorem ShortUsage.toJson (format : NumberFormat ν) {usage : Option (List (Text × UsageValue ν))}
    (h : ∀ fields ∈ usage, ShortUsage fields) :
    ∃ json, usageToJson usage = some json ∧ ∀ fields ∈ json, Modest format (.obj fields) 1 23 2862 := by
  cases usage with
  | none => exact ⟨none, rfl, fun _ hf => nomatch hf⟩
  | some fields =>
    obtain ⟨hlength, hfields⟩ := h fields rfl
    have hdepth : 2 < 128 := by decide
    obtain ⟨properties, hjson, hsame, hproperties⟩ := usage_toJson format hdepth hfields
    refine ⟨some properties, by simp only [usageToJson, hjson, Option.map_some], fun f hf => ?_⟩
    obtain rfl := Option.some.inj hf
    refine (modest_obj (by decide) (Nat.le_refl 1) (fun p hp => (hproperties p hp).1) fun p hp => (hproperties p hp).2).mono ?_ ?_
    · omega
    · have := Nat.mul_le_mul_right (shortTextBytes + 2 + shortTextBytes) (hsame.le.trans hlength)
      exact (Nat.add_le_add_left this 2).trans (by decide)

theorem toJson_modest (format : NumberFormat ν) (value : MetadataValue ν)
    (hreason : ∀ reason ∈ value.finishReason, Modest format reason 1 10 401) (husage : ∀ fields ∈ value.totalUsage, ShortUsage fields)
    (hobject : ∀ object ∈ value.object, Modest format object 1 10 401) :
    ∃ json, value.toJson = some json ∧ Modest format json 0 70 8786 := by
  obtain ⟨usage, husageJson, husage⟩ := ShortUsage.toJson format husage
  have hkeys : ShortText Key.finishReason ∧ ShortText Key.totalUsage ∧ ShortText Key.object := by
    refine ⟨?_, ?_, ?_⟩ <;> exact shortText_ofList (by decide) (by decide)
  have hproperties : ∀ property ∈ value.finishReason.toList.map (Prod.mk Key.finishReason) ++
      usage.toList.map (fun fields => (Key.totalUsage, Json.obj fields)) ++ value.object.toList.map (Prod.mk Key.object),
      ShortText property.1 ∧ Modest format property.2 1 23 2862 := by
    intro property hp
    simp only [List.mem_append, List.mem_map, Option.mem_toList] at hp
    rcases hp with (⟨reason, hmem, rfl⟩ | ⟨fields, hmem, rfl⟩) | ⟨object, hmem, rfl⟩
    · exact ⟨hkeys.1, (hreason reason hmem).mono (by decide) (by decide)⟩
    · exact ⟨hkeys.2.1, husage fields hmem⟩
    · exact ⟨hkeys.2.2, (hobject object hmem).mono (by decide) (by decide)⟩
  have hlength : (value.finishReason.toList.map (Prod.mk Key.finishReason) ++
      usage.toList.map (fun fields => (Key.totalUsage, Json.obj fields)) ++
      value.object.toList.map (Prod.mk Key.object)).length ≤ 3 := by
    cases value.finishReason <;> cases usage <;> cases value.object <;> simp
  refine ⟨_, by rw [MetadataValue.toJson, husageJson, Option.map_some], ?_⟩
  refine (modest_obj (by decide) (by decide) (fun p hp => (hproperties p hp).1) fun p hp => (hproperties p hp).2).mono ?_ ?_
  · have := Nat.mul_le_mul_right 23 hlength
    omega
  · have := Nat.mul_le_mul_right (shortTextBytes + 2 + 2862) hlength
    exact (Nat.add_le_add_left this 2).trans (by decide)

/-! ## The fit -/

theorem budgetOutput_finishReason (format : NumberFormat ν) (output : Option (Json ν × Json ν)) (encoding : Encoding)
    (value : MetadataValue ν) : (budgetOutput format output encoding value).finishReason = value.finishReason := by
  cases output with
  | none => rfl
  | some output =>
    simp only [budgetOutput, budgetObject]
    split <;> rfl

theorem budgetOutput_totalUsage (format : NumberFormat ν) (output : Option (Json ν × Json ν)) (encoding : Encoding)
    (value : MetadataValue ν) : (budgetOutput format output encoding value).totalUsage = value.totalUsage := by
  cases output with
  | none => rfl
  | some output =>
    simp only [budgetOutput, budgetObject]
    split <;> rfl

theorem searchBudget_fits (format : NumberFormat ν) (baseValue : MetadataValue ν) (object : Json ν) (encoding : Encoding)
    (low high : Int) (best : Json ν) :
    let found := searchBudget format baseValue object encoding low high best
    found = best ∨ (∃ budget, found = (createObjectObservation object budget encoding).toJson) ∧
      isWithinDurableBudget format { baseValue with object := some found } = true := by
  induction low, high, best using searchBudget.induct format baseValue object encoding with
  | case1 low high best hle mid candidate hfits ih =>
    rw [searchBudget, if_pos hle, if_pos hfits]
    exact .inr (ih.elim (fun heq => by rw [heq]; exact ⟨⟨_, rfl⟩, hfits⟩) id)
  | case2 low high best hle mid candidate hfits ih =>
    rw [searchBudget, if_pos hle, if_neg hfits]
    exact ih
  | case3 low high best hle =>
    rw [searchBudget, if_neg hle]
    exact .inl rfl

def outputOf (value : MetadataValue ν) (object : Option (Json ν)) : Option (Json ν × Json ν) :=
  value.object.bind fun objectSnapshot => object.map (objectSnapshot, ·)

/-- A finish reason that leaves no room, alone or beside an output that has been cut. A long one that fits alone stays, and
the output beside it is cut. -/
def reasonOversized (format : NumberFormat ν) (value : MetadataValue ν) (object : Option (Json ν)) (encoding : Encoding) : Bool :=
  value.hasReasonText &&
    (!isWithinDurableBudget format value.base ||
      !isWithinDurableBudget format (budgetOutput format (outputOf value object) encoding value))

def relieved (format : NumberFormat ν) (value : MetadataValue ν) (object : Option (Json ν)) (encoding : Encoding) :
    MetadataValue ν :=
  if reasonOversized format value object encoding then truncateFinishReason value else value

/-- With its finish reason in full the record does not fit: not without the output, or with no cut of it. -/
def LeavesNoRoom (format : NumberFormat ν) (value : MetadataValue ν) (object : Option (Json ν)) (encoding : Encoding) : Prop :=
  value.hasReasonText = true ∧ (isWithinDurableBudget format value.base = false ∨
    ∀ object' ∈ object, ∀ cut, cut = createTruncatedObjectObservation serializedBudgetExhausted ∨
      (∃ budget, cut = (createObjectObservation object' budget encoding).toJson) →
        isWithinDurableBudget format { value with object := some cut } = false)

variable {object : Option (Json ν)} {encoding : Encoding}

theorem reasonOversized_of_leavesNoRoom
    (hwithin : isWithinDurableBudget format value = false) (h : LeavesNoRoom format value object encoding) :
    reasonOversized format value object encoding = true := by
  obtain ⟨htext, hbase | hroom⟩ := h
  · simp [reasonOversized, htext, hbase]
  have hbudgeted : isWithinDurableBudget format (budgetOutput format (outputOf value object) encoding value) = false := by
    cases houtput : value.object with
    | none => simpa [outputOf, houtput, budgetOutput] using hwithin
    | some objectSnapshot =>
      cases object with
      | none => simpa [outputOf, houtput, budgetOutput] using hwithin
      | some whole =>
        have hsame : { value with object := some objectSnapshot } = value := by rw [← houtput]
        simp only [outputOf, houtput, Option.bind_some, Option.map_some, budgetOutput, budgetObject, hsame, hwithin,
          Bool.false_eq_true, if_false]
        exact hroom whole rfl _ ((searchBudget_fits ..).imp_right And.left)
  simp [reasonOversized, htext, hbudgeted]

theorem hasReasonText_budgetOutput (format : NumberFormat ν) (output : Option (Json ν × Json ν)) (encoding : Encoding)
    (value : MetadataValue ν) : (budgetOutput format output encoding value).hasReasonText = value.hasReasonText := by
  simp only [MetadataValue.hasReasonText, budgetOutput_finishReason]

theorem budgetObject_congr (objectSnapshot object : Json ν) (encoding : Encoding) {other : MetadataValue ν}
    (hreason : value.finishReason = other.finishReason) (husage : value.totalUsage = other.totalUsage) :
    budgetObject format objectSnapshot object encoding value = budgetObject format objectSnapshot object encoding other := by
  obtain ⟨reason, usage, output⟩ := value
  obtain ⟨reason', usage', output'⟩ := other
  obtain rfl : reason = reason' := hreason
  obtain rfl : usage = usage' := husage
  rfl

theorem budgetOutput_truncated (format : NumberFormat ν) (output : Option (Json ν × Json ν)) (encoding : Encoding)
    (value : MetadataValue ν) :
    budgetOutput format output encoding (truncateFinishReason (budgetOutput format output encoding value)) =
      budgetOutput format output encoding (truncateFinishReason value) := by
  cases output with
  | none => rfl
  | some output =>
    exact budgetObject_congr output.1 output.2 encoding rfl (budgetOutput_totalUsage format (some output) encoding value)

theorem fitWithinDurableBudget_eq
    (h : isWithinDurableBudget format value = false) :
    fitWithinDurableBudget format value object encoding =
      let budgeted := budgetOutput format (outputOf value object) encoding (relieved format value object encoding)
      if isWithinDurableBudget format budgeted then budgeted
      else { budgeted with object := some (createTruncatedObjectObservation serializedBudgetExhausted) } := by
  have hobserved : (truncateFinishReason value).hasReasonText = false := rfl
  simp only [fitWithinDurableBudget, h, Bool.false_eq_true, if_false, relieved, reasonOversized, outputOf]
  by_cases htext : value.hasReasonText = true
  · by_cases hbase : isWithinDurableBudget format value.base = true
    · by_cases hbudgeted : isWithinDurableBudget format (budgetOutput format
        (value.object.bind fun objectSnapshot => object.map (objectSnapshot, ·)) encoding value) = true
      · simp [hbase, hbudgeted]
      · simp [hasReasonText_budgetOutput, htext, hbase, hbudgeted, budgetOutput_truncated]
    · simp [hasReasonText_budgetOutput, hobserved, htext, hbase]
  · simp [hasReasonText_budgetOutput, htext]

theorem relieved_totalUsage (format : NumberFormat ν) (value : MetadataValue ν) (object : Option (Json ν))
    (encoding : Encoding) : (relieved format value object encoding).totalUsage = value.totalUsage := by
  rw [relieved]
  split <;> rfl

theorem fitWithinDurableBudget_totalUsage (format : NumberFormat ν) (value : MetadataValue ν) (object : Option (Json ν))
    (encoding : Encoding) : (fitWithinDurableBudget format value object encoding).totalUsage = value.totalUsage := by
  cases h : isWithinDurableBudget format value with
  | true => rw [fitWithinDurableBudget, if_pos h]
  | false =>
    rw [fitWithinDurableBudget_eq h]
    simp only
    split <;> simp only [budgetOutput_totalUsage, relieved_totalUsage]

/-- An output is replaced only where it does not fit whole, after an oversized finish reason has been cut. -/
theorem fitWithinDurableBudget_object
    (hobject : value.object.isSome → object.isSome)
    (h : (fitWithinDurableBudget format value object encoding).object ≠ value.object) :
    isWithinDurableBudget format (relieved format value object encoding) = false := by
  have hrelieved : (relieved format value object encoding).object = value.object := by
    rw [relieved]
    split <;> rfl
  cases hwithin : isWithinDurableBudget format value with
  | true =>
    rw [fitWithinDurableBudget, if_pos hwithin] at h
    exact absurd rfl h
  | false =>
    rw [fitWithinDurableBudget_eq hwithin] at h
    simp only at h
    rw [Bool.eq_false_iff]
    intro hfits
    cases houtput : value.object with
    | none =>
      simp only [outputOf, houtput, Option.bind_none, budgetOutput, hfits, if_true, hrelieved] at h
      exact h rfl
    | some objectSnapshot =>
      obtain ⟨whole, hwhole⟩ := Option.isSome_iff_exists.mp (hobject (by rw [houtput]; rfl))
      have hsame : { relieved format value object encoding with object := some objectSnapshot } =
          relieved format value object encoding := by
        rw [← houtput, ← hrelieved]
      simp only [outputOf, houtput, hwhole, Option.bind_some, Option.map_some, budgetOutput, budgetObject] at h
      rw [← hwhole, hsame, if_pos hfits, if_pos hfits, hrelieved, houtput] at h
      exact h rfl

/-! ## The event -/

def totalIsFinite (format : NumberFormat ν) (event : FinishEvent ν) : Bool :=
  match messageFinishUsage event with
  | none => true
  | some usage =>
    (readFiniteNonNegativeNumber format usage "totalTokens").isSome ||
      match inputTokens format usage, outputTokens format usage with
      | some input, some output => (format.add input output).isSome
      | _, _ => true

variable {event : FinishEvent ν}

theorem totalIsFinite_iff :
    totalIsFinite format event = true ↔ ∀ usage ∈ messageFinishUsage event, totalTokens format usage ≠ some .infinite := by
  rw [totalIsFinite]
  cases messageFinishUsage event with
  | none => simp
  | some usage =>
    simp only [Option.mem_some_iff, forall_eq', totalTokens]
    cases readFiniteNonNegativeNumber format usage "totalTokens" with
    | some total => simp
    | none =>
      cases inputTokens format usage with
      | none => simp
      | some input =>
        cases outputTokens format usage with
        | none => simp
        | some output => cases hadd : format.add input output <;> simp [hadd]

theorem readMessageFinishUsageMetadata_eq_some
    (h : readMessageFinishUsageMetadata format event = some fields) :
    ∃ usage, messageFinishUsage event = some usage ∧ fields = usageMetadata format usage := by
  obtain ⟨usage, husage, hfields⟩ := Option.bind_eq_some_iff.mp h
  refine ⟨usage, husage, ?_⟩
  simp only at hfields
  split at hfields
  · nomatch hfields
  · exact (Option.some.inj hfields).symm

theorem observedValue_short (h : totalIsFinite format event = true) :
    ∀ fields ∈ (observedValue format event).totalUsage, ShortUsage fields := by
  intro fields hfields
  obtain ⟨usage, husage, rfl⟩ := readMessageFinishUsageMetadata_eq_some hfields
  exact ⟨length_usageMetadata_le format usage, usageMetadata_short (totalIsFinite_iff.mp h usage husage)⟩

theorem observeFinishReason_spec (format : NumberFormat ν) {reason : Json ν} (h : observeFinishReason event = some reason) :
    (∃ text, reason = .str text) ∨ Modest format reason 1 10 401 := by
  have hexhausted := serializedBudgetExhausted_short
  rw [observeFinishReason] at h
  split at h
  · next text _ =>
    split at h
    · nomatch h
    simp only at h
    split at h
    · exact .inl ⟨_, (Option.some.inj h).symm⟩
    · right
      rw [← Option.some.inj h]
      refine modest_scalarObservation ?_
      have hnoted := wellNoted_snapshotObjectValue (ν := ν) false (.str text) 0 ⟨maxOutputBytes, maxNodes⟩
      cases hreasons : (snapshotObjectValue (ν := ν) false (.str text) 0 ⟨maxOutputBytes, maxNodes⟩).reasons with
      | nil => exact hexhausted
      | cons first rest => exact reason_short hnoted first (by simp [hreasons])
  · nomatch h

theorem isWithinDurableBudget_cut (hreason : ∀ reason ∈ value.finishReason, Modest format reason 1 10 401)
    (husage : ∀ fields ∈ value.totalUsage, ShortUsage fields) :
    isWithinDurableBudget format { value with object := some (createTruncatedObjectObservation serializedBudgetExhausted) } =
      true := by
  have hobject : ∀ object ∈ some (createTruncatedObjectObservation (ν := ν) serializedBudgetExhausted),
      Modest format object 1 10 401 := by
    intro object hmem
    rw [← Option.some.inj hmem]
    exact modest_objectObservation
  obtain ⟨json, hjson, hmodest⟩ := toJson_modest format { value with
    object := some (createTruncatedObjectObservation serializedBudgetExhausted) } hreason husage hobject
  exact isWithinDurableBudget_of_modest hjson hmodest

theorem relieved_finishReason
    (h : isWithinDurableBudget format (budgetOutput format (outputOf (observedValue format event) object) encoding
      (relieved format (observedValue format event) object encoding)) = false) :
    ∀ reason ∈ (relieved format (observedValue format event) object encoding).finishReason, Modest format reason 1 10 401 := by
  have hexhausted := serializedBudgetExhausted_short
  intro reason hreason
  rw [relieved] at h hreason
  split at hreason
  · rw [← Option.some.inj hreason]
    exact modest_scalarObservation hexhausted
  · next hfits =>
    rw [if_neg hfits] at h
    rcases observeFinishReason_spec format hreason with ⟨text, rfl⟩ | hmodest
    · have htext : (observedValue format event).hasReasonText = true := by
        rw [MetadataValue.hasReasonText, show (observedValue format event).finishReason = some (.str text) from hreason]
      simp [reasonOversized, htext, h] at hfits
    · exact hmodest

theorem fittedValue_within (h : totalIsFinite format event = true) :
    isWithinDurableBudget format (fittedValue format event) = true := by
  rw [fittedValue]
  by_cases hwithin : isWithinDurableBudget format (observedValue format event) = true
  · rw [fitWithinDurableBudget, if_pos hwithin, hwithin]
  rw [fitWithinDurableBudget_eq (Bool.eq_false_iff.mpr hwithin)]
  simp only
  split
  · assumption
  next hbudgeted =>
  refine isWithinDurableBudget_cut ?_ ?_
  · rw [budgetOutput_finishReason]
    exact relieved_finishReason (Bool.eq_false_iff.mpr hbudgeted)
  · rw [budgetOutput_totalUsage, relieved_totalUsage]
    exact observedValue_short h

theorem isWithinDurableBudget_infinite {key : Text}
    (hfields : value.totalUsage = some fields) (h : (key, .infinite) ∈ fields) : isWithinDurableBudget format value = false := by
  have husage : usageToJson value.totalUsage = none := by
    rw [hfields, usageToJson, usage_toJson_infinite h]
    rfl
  simp only [isWithinDurableBudget, getMessageFinishMetadataDurableByteLength, admitted, MetadataValue.toJson, husage,
    Option.map_none, Option.bind_none, Option.any_none]

theorem fittedValue_infinite (h : totalIsFinite format event = false) :
    isWithinDurableBudget format (fittedValue format event) = false := by
  have hinfinite := mt totalIsFinite_iff.mpr (Bool.eq_false_iff.mp h)
  simp only [not_forall, not_not] at hinfinite
  obtain ⟨usage, husage, htotal⟩ := hinfinite
  have hmem : (Text.of "totalTokens", UsageValue.infinite) ∈ usageMetadata format usage := by
    simp only [usageMetadata, List.mem_append]
    refine .inl (.inl (.inl (.inr ?_)))
    rw [htotal]
    exact List.mem_singleton_self _
  have hread : readMessageFinishUsageMetadata format event = some (usageMetadata format usage) := by
    have hne : (usageMetadata format usage).isEmpty = false := by
      rw [List.isEmpty_eq_false_iff]
      exact List.ne_nil_of_mem hmem
    rw [readMessageFinishUsageMetadata, husage, Option.bind_some]
    simp only [hne, Bool.false_eq_true, if_false]
  refine isWithinDurableBudget_infinite ?_ hmem
  rw [fittedValue, fitWithinDurableBudget_totalUsage]
  exact hread

structure FitsDurableBudget (format : NumberFormat ν) (event : FinishEvent ν) : Prop where
  within : isWithinDurableBudget format (fittedValue format event) = true
  unchanged : isWithinDurableBudget format (observedValue format event) = true → fittedValue format event = observedValue format event
  /-- An output is replaced only where it does not fit whole, after an oversized finish reason has been replaced. -/
  replaced : (fittedValue format event).object ≠ (observedValue format event).object →
    isWithinDurableBudget format
      (relieved format (observedValue format event) event.structured (eventEncoding event)) = false
  replacedAfterReason : (fittedValue format event).object ≠ (observedValue format event).object →
    LeavesNoRoom format (observedValue format event) event.structured (eventEncoding event) →
      isWithinDurableBudget format (truncateFinishReason (observedValue format event)) = false
  /-- The search ends on a candidate that fits, or on the observation it starts with. -/
  searched : ∀ (baseValue : MetadataValue ν) (object : Json ν) (encoding : Encoding),
    let found := createObjectObservationWithinDurableBudget format baseValue object encoding
    found = createTruncatedObjectObservation serializedBudgetExhausted ∨
      isWithinDurableBudget format { baseValue with object := some found } = true

theorem fitsDurableBudget_iff (format : NumberFormat ν) (event : FinishEvent ν) :
    FitsDurableBudget format event ↔ totalIsFinite format event = true := by
  constructor
  · intro h
    by_contra hinfinite
    have hwithin := h.within
    rw [fittedValue_infinite (Bool.eq_false_iff.mpr hinfinite)] at hwithin
    nomatch hwithin
  · intro h
    have hunchanged : isWithinDurableBudget format (observedValue format event) = true →
        fittedValue format event = observedValue format event := by
      intro hwithin
      rw [fittedValue, fitWithinDurableBudget, if_pos hwithin]
    have hreplaced : (fittedValue format event).object ≠ (observedValue format event).object →
        isWithinDurableBudget format (relieved format (observedValue format event) event.structured (eventEncoding event)) = false :=
      fitWithinDurableBudget_object fun houtput => by simpa [observedValue] using houtput
    refine ⟨fittedValue_within h, hunchanged, hreplaced, fun hobject hroom => ?_, fun baseValue object encoding =>
      (searchBudget_fits format baseValue object encoding _ _ _).imp_right And.right⟩
    have hwithin : isWithinDurableBudget format (observedValue format event) = false := by
      rw [Bool.eq_false_iff]
      intro hwithin
      rw [hunchanged hwithin] at hobject
      exact hobject rfl
    have hrelieved := hreplaced hobject
    rwa [relieved, if_pos (reasonOversized_of_leavesNoRoom hwithin hroom)] at hrelieved

/-- Half of the range, 2 to the power of 1023, and its end. -/
inductive LargeNumber
  | half
  | largest

/-- Every sum of the two is infinite. -/
def largeNumbers : NumberFormat LargeNumber where
  text
    | .half => .of "8.98846567431158e+307"
    | .largest => .of "1.7976931348623157e+308"
  nonNegative _ := true
  add _ _ := none
  maxValue := .largest
  length_text n := by cases n <;> decide
  ascii_text n := by cases n <;> decide

/-- Two finite counts of tokens whose sum is not finite. -/
theorem fitsDurableBudget_infinite_total :
    ¬ FitsDurableBudget largeNumbers ⟨none, some (.obj [(.of "inputTokens", .num .half), (.of "outputTokens", .num .half)]),
      none, none, none⟩ := by
  intro h
  have hwithin := h.within
  exact absurd hwithin (by decide)

end Veryfront.Agent.AgUi.MessageFinish
