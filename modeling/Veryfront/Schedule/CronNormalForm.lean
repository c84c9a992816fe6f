import Veryfront.Schedule.CronGrammar

/-!
# Normal forms of cron expressions

An expression has a normal form just when it is spelled by the grammar, and the normal form denotes what it does.
-/

namespace Veryfront.Schedule

open Lib

/-! ## The fields -/

/-- What the proofs need to know of a field. -/
structure CronField.Proper (field : CronField) : Prop where
  plain : ∀ entry ∈ field.names, PlainName entry.1
  lookup : ∀ entry ∈ field.names, field.names.lookup entry.1 = some entry.2
  safe : field.maximum < maxSafeInteger
  ordered : field.minimum ≤ field.maximum

instance (name : Text) : Decidable (PlainName name) :=
  decidable_of_iff (name ≠ [] ∧ (∀ unit ∈ name, 65 ≤ unit ∧ unit ≤ 90) ∧ ∀ letters ∈ ligatures, ¬ letters <:+: name)
    ⟨fun h => ⟨h.1, h.2.1, h.2.2⟩, fun h => ⟨h.nonempty, h.capitals, h.apart⟩⟩

theorem proper_months : ∀ entry ∈ months, PlainName entry.1 ∧ months.lookup entry.1 = some entry.2 := by decide

theorem proper_weekdays : ∀ entry ∈ weekdays, PlainName entry.1 ∧ weekdays.lookup entry.1 = some entry.2 := by
  decide

theorem proper_cronFields : ∀ field ∈ cronFields, field.Proper := by
  have hnone : ∀ {least most : Nat}, most < maxSafeInteger → least ≤ most → CronField.Proper { minimum := least, maximum := most } :=
    fun hsafe hordered => ⟨nofun, nofun, hsafe, hordered⟩
  simp only [cronFields, List.forall_mem_cons]
  refine ⟨hnone (by decide) (by decide), hnone (by decide) (by decide), hnone (by decide) (by decide), ?_, ?_, nofun⟩
  · exact ⟨fun e he => (proper_months e he).1, fun e he => (proper_months e he).2, by decide, by decide⟩
  · exact ⟨fun e he => (proper_weekdays e he).1, fun e he => (proper_weekdays e he).2, by decide, by decide⟩

/-! ## Values -/

variable {also : List (Nat × Nat)} {casing : Casing} {field : CronField}

/-- The units of values: digits, letters and what is taken for them. -/
def IsWord (also : List (Nat × Nat)) (unit : Nat) : Prop :=
  (48 ≤ unit ∧ unit ≤ 57) ∨ (65 ≤ unit ∧ unit ≤ 90) ∨ (97 ≤ unit ∧ unit ≤ 122) ∨ unit ∈ also.map Prod.fst

theorem isWord_folded {unit : Nat} : IsWord foldedLetters unit ↔ (48 ≤ unit ∧ unit ≤ 57) ∨ (65 ≤ unit ∧ unit ≤ 90) ∨
    (97 ≤ unit ∧ unit ≤ 122) ∨ unit = 0x131 ∨ unit = 0x17F := by
  simp [IsWord, foldedLetters]

variable {text : Text}

theorem SpellsValue.wide {number : Nat} (h : SpellsValue [] field text number) :
    SpellsValue foldedLetters field text number := by
  cases h with
  | number hdigits hleast hmost => exact .number hdigits hleast hmost
  | name hname hletters =>
    exact .name hname (hletters.imp fun _ _ hletter => hletter.imp_right (Or.imp_right fun hnone => nomatch hnone))

theorem SpellsValue.word {number : Nat} (hfield : field.Proper) (h : SpellsValue also field text number) :
    text ≠ [] ∧ ∀ unit ∈ text, IsWord also unit := by
  cases h with
  | number hdigits => exact ⟨hdigits.1, fun unit hunit => .inl (hdigits.2 unit hunit)⟩
  | name hname hletters =>
    have hplain := hfield.plain _ hname
    refine ⟨fun hnil => hplain.nonempty ?_, fun unit hunit => ?_⟩
    · subst hnil
      exact List.forall₂_nil_left_iff.mp hletters
    · obtain ⟨letter, hmem, hletter⟩ := forall₂_partner hletters hunit
      have hcapital : 65 ≤ letter ∧ letter ≤ 90 := hplain.capitals letter hmem
      rcases hletter with rfl | rfl | hletter
      · exact .inr (.inl hcapital)
      · exact .inr (.inr (.inl (by omega)))
      · exact .inr (.inr (.inr (List.mem_map.mpr ⟨_, hletter, rfl⟩)))

theorem letters_self (name : Text) : List.Forall₂ (Letter also) name name := List.forall₂_same.mpr fun _ _ => .inl rfl

theorem lookup_iff (hfield : field.Proper) {name : Text} {number : Nat} :
    field.names.lookup name = some number ↔ (name, number) ∈ field.names := by
  constructor
  · intro h
    obtain ⟨before, after, heq, -⟩ := List.lookup_eq_some_iff.mp h
    rw [heq]
    exact List.mem_append_right _ List.mem_cons_self
  · exact hfield.lookup _

theorem lookup_of_digits (hfield : field.Proper) (hdigits : IsDecimal text) :
    field.names.lookup (casing.toUpperCase text) = none := by
  rw [Option.eq_none_iff_forall_ne_some]
  intro number hlookup
  have hname := (lookup_iff hfield).mp hlookup
  have hplain := hfield.plain _ hname
  have hletters := (toUpperCase_eq_iff casing hplain).mp rfl
  obtain ⟨unit, hunit⟩ := List.exists_mem_of_ne_nil _ hdigits.1
  have hdigit := hdigits.2 unit hunit
  obtain ⟨letter, hmem, hletter⟩ := forall₂_partner hletters hunit
  have hcapital : 65 ≤ letter ∧ letter ≤ 90 := hplain.capitals letter hmem
  rcases hletter with rfl | rfl | hletter
  · omega
  · omega
  · rcases mem_foldedLetters.mp hletter with ⟨rfl, -⟩ | ⟨rfl, -⟩ <;> omega

variable {n : Nat}

theorem parseInteger_eq_some {value : Text} :
    parseInteger value = some n ↔ IsDecimal value ∧ digitsValue value ≤ maxSafeInteger ∧ digitsValue value = n := by
  rw [parseInteger, Option.ite_none_right_eq_some, Option.some.injEq, and_assoc]

theorem parseInteger_decimal (h : n ≤ maxSafeInteger) : parseInteger (decimal n) = some n :=
  parseInteger_eq_some.mpr ⟨isDecimal_decimal n, by rwa [digitsValue_decimal], digitsValue_decimal n⟩

theorem normalizeFieldValue_number (hfield : field.Proper) (hdigits : IsDecimal text)
    (hvalue : digitsValue text = n) (hleast : field.minimum ≤ n) (hmost : n ≤ field.maximum) :
    normalizeFieldValue casing text field = some ⟨decimal n, n⟩ := by
  have hread := parseInteger_eq_some.mpr ⟨hdigits, hvalue ▸ hmost.trans hfield.safe.le, hvalue⟩
  simp only [normalizeFieldValue, lookup_of_digits hfield hdigits, hread, Option.bind_eq_bind, Option.bind_some]
  rw [if_neg (by omega)]

theorem normalizeFieldValue_name (hfield : field.Proper) {name : Text} (hname : (name, n) ∈ field.names)
    (hletters : List.Forall₂ (Letter foldedLetters) text name) : normalizeFieldValue casing text field = some ⟨name, n⟩ := by
  have hupper := (toUpperCase_eq_iff casing (hfield.plain _ hname)).mpr hletters
  simp only [normalizeFieldValue, hupper, (lookup_iff hfield).mpr hname]

variable (casing) in
theorem SpellsValue.normalized (hfield : field.Proper) (h : SpellsValue foldedLetters field text n) :
    ∃ normal, normalizeFieldValue casing text field = some ⟨normal, n⟩ ∧ SpellsValue [] field normal n ∧
      normalizeFieldValue casing normal field = some ⟨normal, n⟩ := by
  cases h with
  | number hdigits hleast hmost =>
    have hnormal : SpellsValue [] field (decimal (digitsValue text)) (digitsValue (decimal (digitsValue text))) :=
      .number (isDecimal_decimal _) (by rwa [digitsValue_decimal]) (by rwa [digitsValue_decimal])
    rw [digitsValue_decimal] at hnormal
    exact ⟨_, normalizeFieldValue_number hfield hdigits rfl hleast hmost, hnormal,
      normalizeFieldValue_number hfield (isDecimal_decimal _) (digitsValue_decimal _) hleast hmost⟩
  | @name known _ hname hletters =>
    exact ⟨known, normalizeFieldValue_name hfield hname hletters, .name hname (letters_self known),
      normalizeFieldValue_name hfield hname (letters_self known)⟩

theorem spellsValue_of_normalized (hfield : field.Proper) {value : FieldValue}
    (h : normalizeFieldValue casing text field = some value) : SpellsValue foldedLetters field text value.number := by
  rw [normalizeFieldValue] at h
  split at h
  · rename_i number hlookup
    obtain rfl := Option.some.inj h
    have hname := (lookup_iff hfield).mp hlookup
    exact .name hname ((toUpperCase_eq_iff casing (hfield.plain _ hname)).mp rfl)
  · obtain ⟨n, hread, hvalue⟩ := Option.bind_eq_some_iff.mp h
    obtain ⟨hdigits, -, rfl⟩ := parseInteger_eq_some.mp hread
    obtain ⟨hrange, hvalue⟩ := Option.ite_none_left_eq_some.mp hvalue
    obtain rfl := Option.some.inj hvalue
    exact .number hdigits (by omega) (by omega)

/-- Some casing: which one makes no difference to what is spelled. -/
def plainCasing : Casing := ⟨fun _ => [128], by simp, by simp⟩

theorem SpellsValue.unique (hfield : field.Proper) {m : Nat} (h : SpellsValue foldedLetters field text m)
    (h' : SpellsValue foldedLetters field text n) : m = n := by
  obtain ⟨normal, hm, -⟩ := h.normalized plainCasing hfield
  obtain ⟨normal', hn, -⟩ := h'.normalized plainCasing hfield
  exact (FieldValue.mk.inj (Option.some.inj (hm.symm.trans hn))).2

/-! ## From texts to what they spell -/

structure Reads {α : Type} (normalize : Text → Option Text) (Spells Plain : Text → α → Prop) : Prop where
  wide : ∀ {text a}, Plain text a → Spells text a
  normalized : ∀ {text a}, Spells text a → ∃ normal, normalize text = some normal ∧ Plain normal a ∧
    normalize normal = some normal
  spelled : ∀ {text normal}, normalize text = some normal → ∃ a, Spells text a
  unique : ∀ {text a b}, Spells text a → Spells text b → a = b

/-! ### Bases -/

theorem not_isWord {unit : Nat} (h : unit = dash ∨ unit = star ∨ unit = slash ∨ unit = comma) :
    ¬ IsWord foldedLetters unit := by
  unfold dash star slash comma at h
  rw [isWord_folded]
  omega

theorem normalizeBase_value (hne : text ≠ []) (hword : ∀ unit ∈ text, IsWord foldedLetters unit) :
    normalizeBase casing text field = (normalizeFieldValue casing text field).map FieldValue.text := by
  have hstar : text ≠ [star] := by
    rintro rfl
    exact not_isWord (.inr (.inl rfl)) (hword star List.mem_cons_self)
  have hdash : dash ∉ text := fun hmem => not_isWord (.inl rfl) (hword dash hmem)
  simp only [normalizeBase, if_neg hstar, List.splitOn_eq_singleton hdash]
  rw [if_neg (by simp [hne.symm])]

theorem normalizeBase_range {first last : Text} (hfirst : first ≠ []) (hlast : last ≠ []) (hword : ∀ unit ∈ first, IsWord foldedLetters unit)
    (hword' : ∀ unit ∈ last, IsWord foldedLetters unit) :
    normalizeBase casing (first ++ dash :: last) field = (normalizeFieldValue casing first field).bind fun start =>
      (normalizeFieldValue casing last field).bind fun stop =>
        if stop.number < start.number then none else some (start.text ++ dash :: stop.text) := by
  have hstar : first ++ dash :: last ≠ [star] := by
    intro heq
    have hlength := congrArg List.length heq
    have := List.length_pos_iff.mpr hfirst
    simp at hlength
    omega
  have hdash : ∀ {text : Text}, (∀ unit ∈ text, IsWord foldedLetters unit) → dash ∉ text :=
    fun hall hmem => not_isWord (.inl rfl) (hall dash hmem)
  simp only [normalizeBase, if_neg hstar, List.splitOn_append_cons_self_of_not_mem (hdash hword),
    List.splitOn_eq_singleton (hdash hword')]
  rw [if_neg (by simp [hfirst.symm, hlast.symm])]
  rfl

variable {normal : Text}

theorem normalizeBase_cases {base : Text} (h : normalizeBase casing base field = some normal) :
    base = [star] ∨ (∃ value, normalizeFieldValue casing base field = some value) ∨
      ∃ first last start stop, base = first ++ dash :: last ∧ normalizeFieldValue casing first field = some start ∧
        normalizeFieldValue casing last field = some stop ∧ start.number ≤ stop.number := by
  rw [normalizeBase] at h
  split at h
  · exact .inl ‹_›
  · right
    obtain ⟨hparts, h⟩ := Option.ite_none_left_eq_some.mp h
    have hjoin : [dash].intercalate (base.splitOn dash) = base := List.intercalate_splitOn dash
    generalize base.splitOn dash = parts at h hparts hjoin
    match parts, h with
    | [first], h =>
      rw [List.intercalate_singleton] at hjoin
      obtain ⟨value, hvalue, -⟩ := Option.map_eq_some_iff.mp h
      exact .inl ⟨value, hjoin ▸ hvalue⟩
    | first :: last :: rest, h =>
      obtain ⟨start, hstart, h⟩ := Option.bind_eq_some_iff.mp h
      obtain ⟨stop, hstop, h⟩ := Option.bind_eq_some_iff.mp h
      obtain ⟨hle, -⟩ := Option.ite_none_left_eq_some.mp h
      have hrest : rest = [] := by
        rw [List.length_cons, List.length_cons] at hparts
        exact List.length_eq_zero_iff.mp (by omega)
      subst hrest
      rw [List.intercalate_cons_cons, List.intercalate_singleton, List.append_assoc, List.singleton_append] at hjoin
      exact .inr ⟨first, last, start, stop, hjoin.symm, hstart, hstop, by omega⟩

variable {base : Base}

theorem SpellsBase.wide (h : SpellsBase [] field text base) :
    SpellsBase foldedLetters field text base := by
  cases h with
  | any => exact .any
  | value hvalue => exact .value hvalue.wide
  | range hstart hstop hle => exact .range hstart.wide hstop.wide hle

theorem SpellsBase.units (hfield : field.Proper) (h : SpellsBase also field text base) :
    text ≠ [] ∧ ∀ unit ∈ text, IsWord also unit ∨ unit = dash ∨ unit = star := by
  cases h with
  | any => exact ⟨List.cons_ne_nil _ _, fun unit hunit => .inr (.inr (List.mem_singleton.mp hunit))⟩
  | value hvalue => exact ⟨(hvalue.word hfield).1, fun unit hunit => .inl ((hvalue.word hfield).2 unit hunit)⟩
  | range hstart hstop _ =>
    refine ⟨by simp, fun unit hunit => ?_⟩
    rcases List.mem_append.mp hunit with hunit | hunit
    · exact .inl ((hstart.word hfield).2 unit hunit)
    · rcases List.mem_cons.mp hunit with rfl | hunit
      · exact .inr (.inl rfl)
      · exact .inl ((hstop.word hfield).2 unit hunit)

variable (casing) in
theorem SpellsBase.normalized (hfield : field.Proper) (h : SpellsBase foldedLetters field text base) :
    ∃ normal, normalizeBase casing text field = some normal ∧ SpellsBase [] field normal base ∧
      normalizeBase casing normal field = some normal := by
  cases h with
  | any => exact ⟨[star], rfl, .any, rfl⟩
  | value hvalue =>
    obtain ⟨normal, hnormal, hplain, hself⟩ := hvalue.normalized casing hfield
    obtain ⟨hne, hword⟩ := hvalue.word hfield
    obtain ⟨hne', hword'⟩ := hplain.wide.word hfield
    exact ⟨normal, by rw [normalizeBase_value hne hword, hnormal]; rfl, .value hplain,
      by rw [normalizeBase_value hne' hword', hself]; rfl⟩
  | range hstart hstop hle =>
    obtain ⟨first, hfirst, hplain, hself⟩ := hstart.normalized casing hfield
    obtain ⟨last, hlast, hplain', hself'⟩ := hstop.normalized casing hfield
    have hword := hstart.word hfield
    have hword' := hstop.word hfield
    have hnormal := hplain.wide.word hfield
    have hnormal' := hplain'.wide.word hfield
    refine ⟨first ++ dash :: last, ?_, .range hplain hplain' hle, ?_⟩
    · rw [normalizeBase_range hword.1 hword'.1 hword.2 hword'.2, hfirst, hlast, Option.bind_some, Option.bind_some,
        if_neg (Nat.not_lt.mpr hle)]
    · rw [normalizeBase_range hnormal.1 hnormal'.1 hnormal.2 hnormal'.2, hself, hself', Option.bind_some, Option.bind_some,
        if_neg (Nat.not_lt.mpr hle)]

theorem append_cons_inj {mark : Nat} {a b c d : Text} (ha : mark ∉ a) (hb : mark ∉ b) (hc : mark ∉ c) (hd : mark ∉ d)
    (h : a ++ mark :: b = c ++ mark :: d) : a = c ∧ b = d := by
  have hsplit := congrArg (List.splitOn mark) h
  rw [List.splitOn_append_cons_self_of_not_mem ha, List.splitOn_append_cons_self_of_not_mem hc,
    List.splitOn_eq_singleton hb, List.splitOn_eq_singleton hd] at hsplit
  obtain ⟨rfl, hrest⟩ := List.cons.inj hsplit
  exact ⟨rfl, (List.cons.inj hrest).1⟩

theorem SpellsBase.unique (hfield : field.Proper) {a b : Base} (ha : SpellsBase foldedLetters field text a)
    (hb : SpellsBase foldedLetters field text b) : a = b := by
  have hdash : ∀ {t : Text} {n : Nat}, SpellsValue foldedLetters field t n → dash ∉ t :=
    fun hvalue hmem => not_isWord (.inl rfl) ((hvalue.word hfield).2 dash hmem)
  have hstar : ∀ {n : Nat}, ¬ SpellsValue foldedLetters field [star] n :=
    fun hvalue => not_isWord (.inr (.inl rfl)) ((hvalue.word hfield).2 star List.mem_cons_self)
  have hone : ∀ {first last : Text}, dash ∈ first ++ dash :: last := List.mem_append_right _ List.mem_cons_self
  cases ha with
  | any =>
    generalize htext : [star] = text at hb
    cases hb with
    | any => rfl
    | value hvalue => exact absurd (htext ▸ hvalue) hstar
    | range hstart => exact absurd (htext ▸ hone) (by decide)
  | value hvalue =>
    cases hb with
    | any => exact absurd hvalue hstar
    | value hvalue' => rw [hvalue.unique hfield hvalue']
    | range => exact absurd hone (hdash hvalue)
  | @range first last start stop hstart hstop hle =>
    generalize htext : first ++ dash :: last = text at hb
    cases hb with
    | any => exact absurd (htext ▸ hone) (by decide)
    | value hvalue => exact absurd (htext ▸ hone) (hdash hvalue)
    | range hstart' hstop' _ =>
      obtain ⟨rfl, rfl⟩ := append_cons_inj (hdash hstart) (hdash hstop) (hdash hstart') (hdash hstop') htext
      rw [hstart.unique hfield hstart', hstop.unique hfield hstop']

variable (casing) in
theorem reads_base (hfield : field.Proper) :
    Reads (normalizeBase casing · field) (SpellsBase foldedLetters field) (SpellsBase [] field) where
  wide h := h.wide
  normalized h := h.normalized casing hfield
  spelled {text normal} h := by
    rcases normalizeBase_cases h with rfl | ⟨value, hvalue⟩ | ⟨first, last, start, stop, rfl, hstart, hstop, hle⟩
    · exact ⟨.any, .any⟩
    · exact ⟨_, .value (spellsValue_of_normalized hfield hvalue)⟩
    · exact ⟨_, .range (spellsValue_of_normalized hfield hstart) (spellsValue_of_normalized hfield hstop) hle⟩
  unique h h' := h.unique hfield h'

/-! ### Items -/

variable {item : Item}

theorem SpellsItem.wide (h : SpellsItem [] field text item) :
    SpellsItem foldedLetters field text item := by
  cases h with
  | plain hbase => exact .plain hbase.wide
  | stepped hbase hdigits hleast hmost => exact .stepped hbase.wide hdigits hleast hmost

theorem digits_word (h : IsDecimal text) : text ≠ [] ∧ ∀ unit ∈ text, IsWord also unit :=
  ⟨h.1, fun unit hunit => .inl (h.2 unit hunit)⟩

theorem SpellsItem.units (hfield : field.Proper) (h : SpellsItem also field text item) :
    text ≠ [] ∧ ∀ unit ∈ text, IsWord also unit ∨ unit = dash ∨ unit = star ∨ unit = slash := by
  cases h with
  | plain hbase =>
    obtain ⟨hne, hunits⟩ := hbase.units hfield
    exact ⟨hne, fun unit hunit => (hunits unit hunit).imp_right (Or.imp_right .inl)⟩
  | stepped hbase hdigits =>
    refine ⟨by simp, fun unit hunit => ?_⟩
    rcases List.mem_append.mp hunit with hunit | hunit
    · exact ((hbase.units hfield).2 unit hunit).imp_right (Or.imp_right .inl)
    · rcases List.mem_cons.mp hunit with rfl | hunit
      · exact .inr (.inr (.inr rfl))
      · exact .inl ((digits_word hdigits).2 unit hunit)

theorem slash_notMem_base (hfield : field.Proper) (h : SpellsBase foldedLetters field text base) :
    slash ∉ text := by
  intro hmem
  rcases (h.units hfield).2 slash hmem with hword | hmark
  · exact not_isWord (.inr (.inr (.inl rfl))) hword
  · exact absurd hmark (by decide)

theorem slash_notMem_digits (h : IsDecimal text) : slash ∉ text :=
  fun hmem => not_isWord (.inr (.inr (.inl rfl))) ((digits_word h).2 slash hmem)

theorem normalizeCronItem_plain (hne : text ≠ []) (hslash : slash ∉ text) :
    normalizeCronItem casing text field = normalizeBase casing text field := by
  simp only [normalizeCronItem, List.splitOn_eq_singleton hslash]
  rw [if_neg (by simp [hne.symm])]

theorem normalizeCronItem_stepped {base step : Text} (hbase : base ≠ []) (hstep : step ≠ []) (hslash : slash ∉ base)
    (hslash' : slash ∉ step) :
    normalizeCronItem casing (base ++ slash :: step) field = (normalizeBase casing base field).bind fun normalizedBase =>
      (parseInteger step).bind fun n =>
        if n < 1 ∨ field.width < n then none else some (normalizedBase ++ slash :: decimal n) := by
  simp only [normalizeCronItem, List.splitOn_append_cons_self_of_not_mem hslash, List.splitOn_eq_singleton hslash']
  rw [if_neg (by simp [hbase.symm, hstep.symm])]
  rfl

theorem normalizeCronItem_cases {item : Text} (h : normalizeCronItem casing item field = some normal) :
    (∃ normal, normalizeBase casing item field = some normal) ∨
      ∃ base step normalizedBase n, item = base ++ slash :: step ∧ normalizeBase casing base field = some normalizedBase ∧
        parseInteger step = some n ∧ 1 ≤ n ∧ n ≤ field.width := by
  rw [normalizeCronItem] at h
  obtain ⟨hparts, h⟩ := Option.ite_none_left_eq_some.mp h
  have hjoin : [slash].intercalate (item.splitOn slash) = item := List.intercalate_splitOn slash
  generalize item.splitOn slash = parts at h hparts hjoin
  match parts, h with
  | [base], h =>
    rw [List.intercalate_singleton] at hjoin
    exact .inl ⟨normal, hjoin ▸ h⟩
  | base :: step :: rest, h =>
    obtain ⟨normalizedBase, hbase, h⟩ := Option.bind_eq_some_iff.mp h
    obtain ⟨n, hstep, h⟩ := Option.bind_eq_some_iff.mp h
    obtain ⟨hrange, -⟩ := Option.ite_none_left_eq_some.mp h
    have hrest : rest = [] := by
      rw [List.length_cons, List.length_cons] at hparts
      exact List.length_eq_zero_iff.mp (by omega)
    subst hrest
    rw [List.intercalate_cons_cons, List.intercalate_singleton, List.append_assoc, List.singleton_append] at hjoin
    exact .inr ⟨base, step, normalizedBase, n, hjoin.symm, hbase, hstep, by omega, by omega⟩

theorem CronField.Proper.width_le (hfield : field.Proper) : field.width ≤ maxSafeInteger := by
  have hsafe := hfield.safe
  unfold CronField.width
  omega

variable (casing) in
theorem SpellsItem.normalized (hfield : field.Proper) (h : SpellsItem foldedLetters field text item) :
    ∃ normal, normalizeCronItem casing text field = some normal ∧ SpellsItem [] field normal item ∧
      normalizeCronItem casing normal field = some normal := by
  cases h with
  | plain hbase =>
    obtain ⟨normal, hnormal, hplain, hself⟩ := hbase.normalized casing hfield
    refine ⟨normal, ?_, .plain hplain, ?_⟩
    · rwa [normalizeCronItem_plain (hbase.units hfield).1 (slash_notMem_base hfield hbase)]
    · rwa [normalizeCronItem_plain (hplain.units hfield).1 (slash_notMem_base hfield hplain.wide)]
  | @stepped base step _ hbase hdigits hleast hmost =>
    obtain ⟨normal, hnormal, hplain, hself⟩ := hbase.normalized casing hfield
    have hsafe := hmost.trans hfield.width_le
    have hdecimal := isDecimal_decimal (digitsValue step)
    have hspelled : SpellsItem [] field (normal ++ slash :: decimal (digitsValue step))
        ⟨_, some (digitsValue (decimal (digitsValue step)))⟩ :=
      .stepped hplain hdecimal (by rwa [digitsValue_decimal]) (by rwa [digitsValue_decimal])
    rw [digitsValue_decimal] at hspelled
    have hrange : ¬ (digitsValue step < 1 ∨ field.width < digitsValue step) := by omega
    refine ⟨_, ?_, hspelled, ?_⟩
    · rw [normalizeCronItem_stepped (hbase.units hfield).1 hdigits.1 (slash_notMem_base hfield hbase)
        (slash_notMem_digits hdigits), hnormal, parseInteger_eq_some.mpr ⟨hdigits, hsafe, rfl⟩, Option.bind_some,
        Option.bind_some, if_neg hrange]
    · rw [normalizeCronItem_stepped (hplain.units hfield).1 hdecimal.1 (slash_notMem_base hfield hplain.wide)
        (slash_notMem_digits hdecimal), hself, parseInteger_decimal hsafe, Option.bind_some, Option.bind_some, if_neg hrange]

theorem SpellsItem.unique (hfield : field.Proper) {a b : Item} (ha : SpellsItem foldedLetters field text a)
    (hb : SpellsItem foldedLetters field text b) : a = b := by
  have hone : ∀ {base step : Text}, slash ∈ base ++ slash :: step := List.mem_append_right _ List.mem_cons_self
  cases ha with
  | plain hbase =>
    cases hb with
    | plain hbase' => rw [hbase.unique hfield hbase']
    | stepped => exact absurd hone (slash_notMem_base hfield hbase)
  | @stepped text step base hbase hdigits _ _ =>
    generalize hitem : text ++ slash :: step = whole at hb
    cases hb with
    | plain hbase' => exact absurd (hitem ▸ hone) (slash_notMem_base hfield hbase')
    | stepped hbase' hdigits' _ _ =>
      obtain ⟨rfl, rfl⟩ := append_cons_inj (slash_notMem_base hfield hbase) (slash_notMem_digits hdigits)
        (slash_notMem_base hfield hbase') (slash_notMem_digits hdigits') hitem
      rw [hbase.unique hfield hbase']

variable (casing) in
theorem reads_item (hfield : field.Proper) :
    Reads (normalizeCronItem casing · field) (SpellsItem foldedLetters field) (SpellsItem [] field) where
  wide h := h.wide
  normalized h := h.normalized casing hfield
  spelled {text normal} h := by
    rcases normalizeCronItem_cases h with ⟨normal, hbase⟩ | ⟨base, step, normal, n, rfl, hbase, hstep, hleast, hmost⟩
    · obtain ⟨base, hbase⟩ := (reads_base casing hfield).spelled hbase
      exact ⟨_, .plain hbase⟩
    · obtain ⟨base, hbase⟩ := (reads_base casing hfield).spelled hbase
      obtain ⟨hdigits, -, rfl⟩ := parseInteger_eq_some.mp hstep
      exact ⟨_, .stepped hbase hdigits hleast hmost⟩
  unique h h' := h.unique hfield h'

/-! ### Fields -/

variable {normalize : Text → Option Text} {texts : List Text}

theorem Reads.all {α : Type} {Spells Plain : Text → α → Prop} (h : Reads normalize Spells Plain) {values : List α}
    (hspelled : List.Forall₂ Spells texts values) :
    ∃ normals, texts.mapM normalize = some normals ∧ List.Forall₂ Plain normals values ∧
      normals.mapM normalize = some normals := by
  simp only [mapM_eq_some_iff]
  induction hspelled with
  | nil => exact ⟨[], .nil, .nil, .nil⟩
  | cons hhead _ ih =>
    obtain ⟨normal, hnormal, hplain, hself⟩ := h.normalized hhead
    obtain ⟨normals, hnormals, hplains, hselves⟩ := ih
    exact ⟨normal :: normals, .cons hnormal hnormals, .cons hplain hplains, .cons hself hselves⟩

theorem Reads.all_spelled {α : Type} {Spells Plain : Text → α → Prop}
    (h : Reads normalize Spells Plain) {normals : List Text} (hall : List.Forall₂ (fun x y => normalize x = some y) texts normals) :
    ∃ values, List.Forall₂ Spells texts values := by
  induction hall with
  | nil => exact ⟨[], .nil⟩
  | cons hhead _ ih =>
    obtain ⟨value, hvalue⟩ := h.spelled hhead
    obtain ⟨values, hvalues⟩ := ih
    exact ⟨value :: values, .cons hvalue hvalues⟩

theorem Reads.all_unique {α : Type} {Spells Plain : Text → α → Prop}
    (h : Reads normalize Spells Plain) {as bs : List α} (ha : List.Forall₂ Spells texts as)
    (hb : List.Forall₂ Spells texts bs) : as = bs := by
  induction ha generalizing bs with
  | nil => exact (List.forall₂_nil_left_iff.mp hb).symm
  | cons hhead _ ih =>
    obtain ⟨b, bs, hhead', hrest', rfl⟩ := List.forall₂_cons_left_iff.mp hb
    rw [h.unique hhead hhead', ih hrest']

theorem comma_notMem_item (hfield : field.Proper) (h : SpellsItem foldedLetters field text item) :
    comma ∉ text := by
  intro hmem
  rcases (h.units hfield).2 comma hmem with hword | hmark
  · exact not_isWord (.inr (.inr (.inr rfl))) hword
  · exact absurd hmark (by decide)

variable {items : List Item}

theorem splitOn_items (hfield : field.Proper) (hne : texts ≠ [])
    (h : List.Forall₂ (SpellsItem foldedLetters field) texts items) : ([comma].intercalate texts).splitOn comma = texts := by
  refine List.splitOn_intercalate comma (fun text htext => ?_) hne
  obtain ⟨item, hitem⟩ := forall₂_mem h text htext
  exact comma_notMem_item hfield hitem

theorem normalizeCronField_items (hfield : field.Proper) (hne : texts ≠ [])
    (h : List.Forall₂ (SpellsItem foldedLetters field) texts items) :
    normalizeCronField casing ([comma].intercalate texts) field =
      (texts.mapM (normalizeCronItem casing · field)).map [comma].intercalate := by
  have hnil : [] ∉ texts := by
    intro hmem
    obtain ⟨item, hitem⟩ := forall₂_mem h [] hmem
    exact (hitem.units hfield).1 rfl
  simp only [normalizeCronField, splitOn_items hfield hne h, if_neg hnil]

theorem ne_nil_of_forall₂ {α β : Type} {R : α → β → Prop} {xs zs : List α} {ys : List β} (h : List.Forall₂ R xs ys)
    (h' : List.Forall₂ R zs ys) (hne : xs ≠ []) : zs ≠ [] := by
  rintro rfl
  obtain rfl := List.forall₂_nil_left_iff.mp h'
  exact hne (List.forall₂_nil_right_iff.mp h)

variable (casing) in
theorem reads_field (hfield : field.Proper) :
    Reads (normalizeCronField casing · field) (SpellsField foldedLetters field) (SpellsField [] field) where
  wide := by
    rintro text items ⟨texts, hne, rfl, hitems⟩
    exact ⟨texts, hne, rfl, hitems.imp fun _ _ h => h.wide⟩
  normalized := by
    rintro text items ⟨texts, hne, rfl, hitems⟩
    obtain ⟨normals, hnormals, hplain, hselves⟩ := (reads_item casing hfield).all hitems
    have hwide := hplain.imp fun _ _ h => h.wide
    have hne' := ne_nil_of_forall₂ hitems hwide hne
    refine ⟨[comma].intercalate normals, ?_, ⟨normals, hne', rfl, hplain⟩, ?_⟩
    · rw [normalizeCronField_items hfield hne hitems, hnormals, Option.map_some]
    · rw [normalizeCronField_items hfield hne' hwide, hselves, Option.map_some]
  spelled := by
    intro text normal h
    obtain ⟨hnil, h⟩ := Option.ite_none_left_eq_some.mp h
    obtain ⟨normals, hnormals, -⟩ := Option.map_eq_some_iff.mp h
    obtain ⟨items, hitems⟩ := (reads_item casing hfield).all_spelled (mapM_eq_some_iff.mp hnormals)
    exact ⟨items, text.splitOn comma, List.splitOn_ne_nil _ _, (List.intercalate_splitOn comma).symm, hitems⟩
  unique := by
    rintro text a b ⟨texts, hne, rfl, ha⟩ ⟨texts', hne', heq, hb⟩
    have hsplit := congrArg (List.splitOn comma) heq
    rw [splitOn_items hfield hne ha, splitOn_items hfield hne' hb] at hsplit
    subst hsplit
    exact (reads_item plainCasing hfield).all_unique ha hb

def Solid (also : List (Nat × Nat)) (unit : Nat) : Prop :=
  IsWord also unit ∨ unit = dash ∨ unit = star ∨ unit = slash ∨ unit = comma

theorem SpellsField.units (hfield : field.Proper) (h : SpellsField also field text items) :
    text ≠ [] ∧ ∀ unit ∈ text, Solid also unit := by
  obtain ⟨texts, hne, rfl, hitems⟩ := h
  induction hitems with
  | nil => exact absurd rfl hne
  | @cons text item texts items hitem hitems ih =>
    obtain ⟨hnonempty, hunits⟩ := hitem.units hfield
    have hhead : ∀ unit ∈ text, Solid also unit :=
      fun unit hunit => (hunits unit hunit).imp_right (Or.imp_right (Or.imp_right .inl))
    cases texts with
    | nil =>
      rw [List.intercalate_singleton]
      exact ⟨hnonempty, hhead⟩
    | cons next texts =>
      rw [List.intercalate_cons_cons, List.append_assoc]
      refine ⟨by simp, fun unit hunit => ?_⟩
      rcases List.mem_append.mp hunit with hunit | hunit
      · exact hhead unit hunit
      · rcases List.mem_cons.mp hunit with rfl | hunit
        · exact .inr (.inr (.inr (.inr rfl)))
        · exact (ih (List.cons_ne_nil _ _)).2 unit hunit

/-! ### Expressions -/

theorem spaces_skipsOver {p : Text} (h : space ∉ p) (s : Text) : spaces.SkipsOver p s := by
  intro y hy hsuffix
  obtain ⟨unit, rest, rfl⟩ := List.exists_cons_of_ne_nil hy
  have hunit : unit ≠ space := fun heq => h (heq ▸ hsuffix.subset List.mem_cons_self)
  exact if_neg hunit

theorem spaces_find {run rest : Text} (hrun : run ≠ []) (hspaces : ∀ unit ∈ run, unit = space)
    (hrest : ∀ unit ∈ rest.head?, unit ≠ space) : spaces.find (run ++ rest) = some rest := by
  obtain ⟨unit, run, rfl⟩ := List.exists_cons_of_ne_nil hrun
  have hunit := hspaces unit List.mem_cons_self
  have hdrop : (run ++ rest).dropWhile (· = space) = rest := by
    rw [List.dropWhile_append_of_pos fun u hu => by simpa using hspaces u (List.mem_cons_of_mem _ hu)]
    cases rest with
    | nil => rfl
    | cons next rest => exact List.dropWhile_cons_of_neg (by simpa using hrest next rfl)
  show (if unit = space then some ((run ++ rest).dropWhile (· = space)) else none) = some rest
  rw [if_pos hunit, hdrop]

theorem spaces_find_eq_some {s rest : Text} (h : spaces.find s = some rest) :
    ∃ run, run ≠ [] ∧ (∀ unit ∈ run, unit = space) ∧ s = run ++ rest ∧ ∀ unit ∈ rest.head?, unit ≠ space := by
  cases s with
  | nil => cases h
  | cons unit s =>
    obtain ⟨hunit, hrest⟩ := Option.ite_none_right_eq_some.mp (show (if unit = space then some (s.dropWhile (· = space)) else none) =
      some rest from h)
    obtain rfl := Option.some.inj hrest
    refine ⟨unit :: s.takeWhile (· = space), List.cons_ne_nil _ _, ?_, ?_, ?_⟩
    · intro u hu
      rcases List.mem_cons.mp hu with rfl | hu
      · exact hunit
      · simpa using List.all_eq_true.mp List.all_takeWhile u hu
    · rw [List.cons_append, List.takeWhile_append_dropWhile]
    · intro u hu
      have := List.head?_dropWhile_not (· = space) s
      rw [Option.mem_def.mp hu] at this
      simpa using this

theorem not_whiteSpace {unit : Nat} (h : Solid foldedLetters unit) : unit ∉ Text.whiteSpace := by
  intro hmem
  have hfour : unit = dash ∨ unit = star ∨ unit = slash ∨ unit = comma → False :=
    fun hmark => by rcases hmark with rfl | rfl | rfl | rfl <;> exact absurd hmem (by decide)
  rcases h with hword | hmark
  · rw [isWord_folded] at hword
    simp only [Text.whiteSpace, List.mem_cons, List.not_mem_nil, or_false] at hmem
    omega
  · exact hfour hmark

theorem space_notMem {p : Text} (h : ∀ unit ∈ p, Solid foldedLetters unit) : space ∉ p :=
  fun hmem => not_whiteSpace (h space hmem) (by decide)

def normalizeFields (casing : Casing) (fields : List CronField) (text : Text) : Option Text :=
  if (spaces.split text).length ≠ fields.length then none
  else (((spaces.split text).zip fields).mapM fun part => normalizeCronField casing part.1 part.2).map [space].intercalate

theorem normalizeFields_last (h : space ∉ text) :
    normalizeFields casing [field] text = normalizeCronField casing text field := by
  rw [normalizeFields, Separator.split_of_skipsOver _ (spaces_skipsOver h []), if_neg (by simp), List.zip_cons_cons,
    List.zip_nil_left, List.mapM_cons]
  cases normalizeCronField casing text field with
  | none => rfl
  | some normal => exact congrArg some List.intercalate_singleton

variable {fields : List CronField}

theorem normalizeFields_next {run rest : Text} (hfields : fields ≠ []) (h : space ∉ text)
    (hrun : run ≠ []) (hspaces : ∀ unit ∈ run, unit = space) (hrest : ∀ unit ∈ rest.head?, unit ≠ space) :
    normalizeFields casing (field :: fields) (text ++ run ++ rest) = (normalizeCronField casing text field).bind fun normal =>
      (normalizeFields casing fields rest).map fun normals => normal ++ space :: normals := by
  obtain ⟨next, fields, rfl⟩ := List.exists_cons_of_ne_nil hfields
  have hsplit : spaces.split (text ++ run ++ rest) = text :: spaces.split rest := by
    rw [List.append_assoc, Separator.split_cut _ (spaces_skipsOver h _) (spaces_find hrun hspaces hrest)]
  obtain ⟨piece, pieces, hpieces⟩ := List.exists_cons_of_ne_nil (spaces.split_ne_nil rest)
  rw [normalizeFields, normalizeFields, hsplit, hpieces]
  by_cases hlength : (piece :: pieces).length = (next :: fields).length
  · rw [if_neg (by simpa using hlength), if_neg (by simpa using hlength), List.zip_cons_cons, List.mapM_cons]
    cases normalizeCronField casing text field with
    | none => rfl
    | some normal =>
      rw [Option.bind_eq_bind, Option.bind_some, Option.bind_some]
      cases hrest : ((piece :: pieces).zip (next :: fields)).mapM fun part => normalizeCronField casing part.1 part.2 with
      | none => rfl
      | some normals =>
        have hne : normals ≠ [] := by
          rintro rfl
          exact absurd (List.forall₂_nil_right_iff.mp (mapM_eq_some_iff.mp hrest)) (by simp)
        obtain ⟨first, more, rfl⟩ := List.exists_cons_of_ne_nil hne
        show some ([space].intercalate (normal :: first :: more)) = some (normal ++ space :: [space].intercalate (first :: more))
        rw [List.intercalate_cons_cons, List.append_assoc, List.singleton_append]
  · rw [if_pos (by simpa using hlength), if_pos (by simpa using hlength)]
    cases normalizeCronField casing text field <;> rfl

variable {schedule : List (List Item)}

theorem SpellsFields.units (hfields : ∀ field ∈ fields, field.Proper) (h : SpellsFields also fields text schedule) :
    (∀ unit ∈ text, Solid also unit ∨ unit = space) ∧ (∃ unit rest, text = unit :: rest ∧ Solid also unit) ∧
      ∃ rest unit, text = rest ++ [unit] ∧ Solid also unit := by
  have hends : ∀ {field text items}, field.Proper → SpellsField also field text items →
      (∃ unit rest, text = unit :: rest ∧ Solid also unit) ∧ ∃ rest unit, text = rest ++ [unit] ∧ Solid also unit := by
    intro field text items hfield hspelled
    obtain ⟨hne, hunits⟩ := hspelled.units hfield
    constructor
    · obtain ⟨unit, rest, rfl⟩ := List.exists_cons_of_ne_nil hne
      exact ⟨unit, rest, rfl, hunits unit List.mem_cons_self⟩
    · have hlast := List.dropLast_append_getLast hne
      exact ⟨_, _, hlast.symm, hunits _ (List.getLast_mem hne)⟩
  induction h with
  | last hfield =>
    have hproper := hfields _ List.mem_cons_self
    exact ⟨fun unit hunit => .inl ((hfield.units hproper).2 unit hunit), hends hproper hfield⟩
  | next hfield _ hspaces _ ih =>
    have hproper := hfields _ List.mem_cons_self
    obtain ⟨hall, -, rest, unit, rfl, hlast⟩ := ih fun f hf => hfields f (List.mem_cons_of_mem _ hf)
    obtain ⟨⟨first, more, rfl, hfirst⟩, -⟩ := hends hproper hfield
    refine ⟨fun u hu => ?_, ⟨first, _, rfl, hfirst⟩, _, unit, (List.append_assoc _ _ _).symm, hlast⟩
    rcases List.mem_append.mp hu with hu | hu
    · rcases List.mem_append.mp hu with hu | hu
      · exact .inl ((hfield.units hproper).2 u hu)
      · exact .inr (hspaces u hu)
    · exact hall u hu

theorem SpellsFields.head (hfields : ∀ field ∈ fields, field.Proper) (h : SpellsFields foldedLetters fields text schedule) :
    ∀ unit ∈ text.head?, unit ≠ space := by
  obtain ⟨-, ⟨unit, rest, rfl, hunit⟩, -⟩ := h.units hfields
  rintro u hu rfl
  obtain rfl := Option.some.inj (Option.mem_def.mp hu)
  exact not_whiteSpace hunit (by decide)

theorem SpellsFields.ne_nil
    (h : SpellsFields also fields text schedule) : fields ≠ [] := by
  cases h <;> exact List.cons_ne_nil _ _

theorem SpellsFields.wide
    (h : SpellsFields [] fields text schedule) : SpellsFields foldedLetters fields text schedule := by
  have hwide : ∀ {field text items}, SpellsField [] field text items → SpellsField foldedLetters field text items := by
    rintro field text items ⟨texts, hne, heq, hitems⟩
    exact ⟨texts, hne, heq, hitems.imp fun _ _ hitem => hitem.wide⟩
  induction h with
  | last hfield => exact .last (hwide hfield)
  | next hfield hrun hspaces _ ih => exact .next (hwide hfield) hrun hspaces ih

variable (casing) in
theorem SpellsFields.normalized (hfields : ∀ field ∈ fields, field.Proper) (h : SpellsFields foldedLetters fields text schedule) :
    ∃ normal, normalizeFields casing fields text = some normal ∧ SpellsFields [] fields normal schedule ∧
      normalizeFields casing fields normal = some normal := by
  induction h with
  | @last field text items hfield =>
    have hproper := hfields _ List.mem_cons_self
    obtain ⟨normal, hnormal, hplain, hself⟩ := (reads_field casing hproper).normalized hfield
    have hwide := (reads_field casing hproper).wide hplain
    refine ⟨normal, ?_, .last hplain, ?_⟩
    · rwa [normalizeFields_last (space_notMem (hfield.units hproper).2)]
    · rwa [normalizeFields_last (space_notMem (hwide.units hproper).2)]
  | @next field text run rest items fields more hfield hrun hspaces hrest ih =>
    have hproper := hfields _ List.mem_cons_self
    have hothers : ∀ f ∈ fields, f.Proper := fun f hf => hfields f (List.mem_cons_of_mem _ hf)
    obtain ⟨normal, hnormal, hplain, hself⟩ := (reads_field casing hproper).normalized hfield
    obtain ⟨normals, hnormals, hplains, hselves⟩ := ih hothers
    have hwide := (reads_field casing hproper).wide hplain
    have hone : ∀ unit ∈ [space], unit = space := fun _ hunit => List.mem_singleton.mp hunit
    have hspelled : SpellsFields [] (field :: fields) (normal ++ space :: normals) (items :: more) := by
      have hnext := SpellsFields.next hplain (List.cons_ne_nil _ _) hone hplains
      rwa [List.append_assoc, List.singleton_append] at hnext
    refine ⟨normal ++ space :: normals, ?_, hspelled, ?_⟩
    · rw [normalizeFields_next hrest.ne_nil (space_notMem (hfield.units hproper).2) hrun hspaces (hrest.head hothers)]
      rw [show normalizeCronField casing text field = some normal from hnormal, hnormals, Option.bind_some, Option.map_some]
    · rw [show normal ++ space :: normals = normal ++ [space] ++ normals by simp,
        normalizeFields_next hrest.ne_nil (space_notMem (hwide.units hproper).2) (List.cons_ne_nil _ _) hone
          (hplains.wide.head hothers)]
      rw [show normalizeCronField casing normal field = some normal from hself, hselves, Option.bind_some, Option.map_some]
      simp

theorem normalizeFields_cases (h : normalizeFields casing fields text = some normal) :
    (∃ field, fields = [field] ∧ space ∉ text) ∨ ∃ field others part run rest, fields = field :: others ∧ others ≠ [] ∧
      text = part ++ run ++ rest ∧ space ∉ part ∧ run ≠ [] ∧ (∀ unit ∈ run, unit = space) ∧
      ∀ unit ∈ rest.head?, unit ≠ space := by
  have hsolid : ∀ {p s : Text}, spaces.SkipsOver p s → space ∉ p := by
    intro p s hskip hmem
    obtain ⟨before, after, rfl⟩ := List.append_of_mem hmem
    have hnone : spaces.find (space :: (after ++ s)) = none :=
      hskip (space :: after) (List.cons_ne_nil _ _) (List.suffix_append _ _)
    have hsome : spaces.find (space :: (after ++ s)) = some ((after ++ s).dropWhile (· = space)) := rfl
    rw [hnone] at hsome
    cases hsome
  obtain ⟨hlength, -⟩ := Option.ite_none_left_eq_some.mp h
  rw [ne_eq, Decidable.not_not] at hlength
  rcases spaces.cut_cases text with hskip | ⟨part, s, rest, rfl, hskip, hfind⟩
  · rw [Separator.split_of_skipsOver _ hskip] at hlength
    obtain ⟨field, hfield⟩ := List.length_eq_one_iff.mp hlength.symm
    exact .inl ⟨field, hfield, hsolid hskip⟩
  · rw [Separator.split_cut _ hskip hfind, List.length_cons] at hlength
    obtain ⟨run, hrun, hspaces, rfl, hrest⟩ := spaces_find_eq_some hfind
    have hpos := List.length_pos_iff.mpr (spaces.split_ne_nil rest)
    match fields, hlength with
    | field :: others, hlength =>
      rw [List.length_cons] at hlength
      exact .inr ⟨field, others, part, run, rest, rfl, List.length_pos_iff.mp (by omega), (List.append_assoc _ _ _).symm,
        hsolid hskip, hrun, hspaces, hrest⟩

theorem spellsFields_of_normalized (hfields : ∀ field ∈ fields, field.Proper)
    (h : normalizeFields casing fields text = some normal) : ∃ schedule, SpellsFields foldedLetters fields text schedule := by
  induction fields generalizing text normal with
  | nil =>
    rcases normalizeFields_cases h with ⟨field, hnil, -⟩ | ⟨field, others, part, run, rest, hnil, -⟩ <;> cases hnil
  | cons field fields ih =>
    have hproper := hfields _ List.mem_cons_self
    rcases normalizeFields_cases h with ⟨_, heq, hspace⟩ | ⟨_, _, part, run, rest, heq, hne, rfl, hspace, hrun, hspaces, hrest⟩
    · obtain ⟨rfl, rfl⟩ := List.cons.inj heq
      rw [normalizeFields_last hspace] at h
      obtain ⟨items, hitems⟩ := (reads_field casing hproper).spelled h
      exact ⟨_, .last hitems⟩
    · obtain ⟨rfl, rfl⟩ := List.cons.inj heq
      rw [normalizeFields_next hne hspace hrun hspaces hrest] at h
      obtain ⟨first, hfirst, h⟩ := Option.bind_eq_some_iff.mp h
      obtain ⟨others, hothers, -⟩ := Option.map_eq_some_iff.mp h
      obtain ⟨items, hitems⟩ := (reads_field casing hproper).spelled hfirst
      obtain ⟨more, hmore⟩ := ih (fun f hf => hfields f (List.mem_cons_of_mem _ hf)) hothers
      exact ⟨_, .next hitems hrun hspaces hmore⟩

theorem SpellsFields.unique (hfields : ∀ field ∈ fields, field.Proper)
    {a b : List (List Item)} (ha : SpellsFields foldedLetters fields text a) (hb : SpellsFields foldedLetters fields text b) :
    a = b := by
  have hunique : ∀ {field text items items'}, field.Proper → SpellsField foldedLetters field text items →
      SpellsField foldedLetters field text items' → items = items' :=
    fun hproper h h' => (reads_field plainCasing hproper).unique h h'
  induction ha generalizing b with
  | last hfield =>
    cases hb with
    | last hfield' => rw [hunique (hfields _ List.mem_cons_self) hfield hfield']
    | next _ _ _ hrest => exact absurd rfl hrest.ne_nil
  | @next field text run rest items fields more hfield hrun hspaces hrest ih =>
    have hproper := hfields field List.mem_cons_self
    have hothers : ∀ f ∈ fields, f.Proper := fun f hf => hfields f (List.mem_cons_of_mem _ hf)
    generalize hwhole : text ++ run ++ rest = whole at hb
    cases hb with
    | last => exact absurd rfl hrest.ne_nil
    | @next _ text' run' rest' items' _ more' hfield' hrun' hspaces' hrest' =>
      have hfind := spaces_find hrun hspaces (hrest.head hothers)
      have hfind' := spaces_find hrun' hspaces' (hrest'.head hothers)
      rw [List.append_assoc, List.append_assoc] at hwhole
      have hsplit := congrArg spaces.split hwhole
      rw [Separator.split_cut _ (spaces_skipsOver (space_notMem (hfield.units hproper).2) _) hfind,
        Separator.split_cut _ (spaces_skipsOver (space_notMem (hfield'.units hproper).2) _) hfind'] at hsplit
      obtain ⟨rfl, -⟩ := List.cons.inj hsplit
      rw [List.append_cancel_left hwhole, hfind'] at hfind
      obtain rfl := Option.some.inj hfind
      rw [hunique hproper hfield hfield', ih hothers hrest']

/-! ## The expression -/

theorem trim_of_spelled (h : SpellsFields foldedLetters cronFields text schedule) :
    text.trim = text := by
  obtain ⟨-, ⟨unit, rest, heq, hunit⟩, front, last, heq', hlast⟩ := h.units proper_cronFields
  exact trim_of_solid ⟨unit, rest, heq, not_whiteSpace hunit⟩ ⟨front, last, heq', not_whiteSpace hlast⟩

theorem denotes_eq {value : Text} (h : SpellsExpression foldedLetters value schedule) :
    denotes value = tuples schedule := by
  ext tuple
  constructor
  · rintro ⟨schedule', h', htuple⟩
    rwa [SpellsFields.unique proper_cronFields h h']
  · exact fun htuple => ⟨schedule, h, htuple⟩

/-- An expression is accepted just when it is spelled by the grammar. The normal form is in ASCII, is accepted as it is and
denotes what the expression does. -/
theorem normalizeCronExpression_accepts (casing : Casing) (value : Text) :
    ((normalizeCronExpression casing value).isSome = true ↔ ∃ schedule, SpellsExpression foldedLetters value schedule) ∧
      ∀ normal, normalizeCronExpression casing value = some normal →
        normalizeCronExpression casing normal = some normal ∧ (∃ schedule, SpellsExpression [] normal schedule) ∧
          denotes normal = denotes value := by
  have hspelled : ∀ {normal}, normalizeCronExpression casing value = some normal →
      ∃ schedule, SpellsExpression foldedLetters value schedule := spellsFields_of_normalized proper_cronFields
  refine ⟨⟨fun h => ?_, ?_⟩, fun normal h => ?_⟩
  · obtain ⟨normal, hnormal⟩ := Option.isSome_iff_exists.mp h
    exact hspelled hnormal
  · rintro ⟨schedule, hschedule⟩
    obtain ⟨normal, hnormal, -⟩ := hschedule.normalized casing proper_cronFields
    exact Option.isSome_iff_exists.mpr ⟨normal, hnormal⟩
  · obtain ⟨schedule, hschedule⟩ := hspelled h
    obtain ⟨normal', hnormal, hplain, hself⟩ := hschedule.normalized casing proper_cronFields
    obtain rfl := Option.some.inj (h.symm.trans hnormal)
    have htrim := trim_of_spelled hplain.wide
    have hwide : SpellsExpression foldedLetters normal schedule := by
      rw [SpellsExpression, htrim]
      exact hplain.wide
    refine ⟨?_, ⟨schedule, by rwa [SpellsExpression, htrim]⟩, by rw [denotes_eq hwide, denotes_eq hschedule]⟩
    show normalizeFields casing cronFields normal.trim = some normal
    rwa [htrim]

/-- The long s stands for an S. -/
theorem longS_accepted : ∃ value : Text, (∀ casing, (normalizeCronExpression casing value).isSome = true) ∧
    ¬ ∃ schedule, SpellsExpression [] value schedule := by
  refine ⟨.of "0 0 * * ſun", fun casing => rfl, ?_⟩
  rintro ⟨schedule, h⟩
  have hmem : 0x17F ∈ (Text.of "0 0 * * ſun").trim := by decide
  rcases (h.units proper_cronFields).1 _ hmem with (hword | hmark) | hspace
  · simp [IsWord] at hword
  · exact absurd hmark (by decide)
  · exact absurd hspace (by decide)

end Veryfront.Schedule
