import Veryfront.Security.AddressBlocks
import Veryfront.Security.AddressTexts
import Mathlib.Data.List.DropRight
import Mathlib.Data.List.TakeWhile

/-!
# Literals

A text denotes one address, which the guard reads whatever white space, brackets and zone stand around it.
-/

namespace Veryfront.Security.Egress

open Lib.Cidr Network

/-! ## The core of a text -/

/-- Of a text that spells an address. -/
def CoreUnit (c : Nat) : Prop := c = dot ∨ c = colon ∨ (hexDigit c).isSome = true

instance : DecidablePred CoreUnit := fun _ => inferInstanceAs (Decidable (_ ∨ _))

instance : DecidablePred Opens := fun _ => inferInstanceAs (Decidable (_ ∨ _))

instance : DecidablePred Closes := fun _ => inferInstanceAs (Decidable (_ ∨ _))

variable {c : Nat}

theorem coreUnit_cases (h : CoreUnit c) :
    c = 46 ∨ c = 58 ∨ 48 ≤ c ∧ c ≤ 57 ∨ 65 ≤ c ∧ c ≤ 70 ∨ 97 ≤ c ∧ c ≤ 102 := by
  rcases h with rfl | rfl | h
  · exact .inl rfl
  · exact .inr (.inl rfl)
  · rw [hexDigit] at h
    split at h
    · omega
    split at h
    · omega
    split at h
    · omega
    · cases h

theorem whiteSpace_cases (h : c ∈ Text.whiteSpace) : c ≤ 32 ∨ 160 ≤ c := by
  have hall : ∀ c ∈ Text.whiteSpace, c ≤ 32 ∨ 160 ≤ c := by decide
  exact hall c h

theorem not_opens_of_coreUnit (h : CoreUnit c) : ¬ Opens c := by
  have hcases := coreUnit_cases h
  rintro (hspace | rfl)
  · have := whiteSpace_cases hspace
    omega
  · omega

theorem not_closes_of_coreUnit (h : CoreUnit c) : ¬ Closes c := by
  have hcases := coreUnit_cases h
  rintro (hspace | rfl | rfl)
  · have := whiteSpace_cases hspace
    omega
  · omega
  · omega

theorem isPlain_of_coreUnit (h : CoreUnit c) : IsPlain c := by
  have hcases := coreUnit_cases h
  exact .inl (by omega)

theorem coreUnit_of_octet {part : Text} {n : Nat} (h : Octet part n) : ∀ c ∈ part, CoreUnit c := by
  intro c hc
  have hdigit := h.digits c hc
  rw [isDigit, Bool.and_eq_true, decide_eq_true_eq, decide_eq_true_eq] at hdigit
  refine .inr (.inr ?_)
  rw [hexDigit, if_pos hdigit]
  rfl

theorem coreUnit_of_hextet {group : Text} {h : Nat} (hgroup : Hextet group h) : ∀ c ∈ group, CoreUnit c :=
  fun c hc => .inr (.inr (hgroup.digits c hc))

variable {text : Text}

theorem dotted_units {octets : List Nat} (h : Dotted text octets) : text ≠ [] ∧ ∀ c ∈ text, CoreUnit c := by
  cases h with
  | intro hp hq hr hs =>
    refine ⟨by simp [List.intercalate_cons_cons], ?_⟩
    simp only [List.intercalate_cons_cons, List.intercalate_singleton, List.mem_append, List.mem_singleton]
    intro c hc
    rcases hc with (hc | rfl) | (hc | rfl) | (hc | rfl) | hc
    · exact coreUnit_of_octet hp c hc
    · exact .inl rfl
    · exact coreUnit_of_octet hq c hc
    · exact .inl rfl
    · exact coreUnit_of_octet hr c hc
    · exact .inl rfl
    · exact coreUnit_of_octet hs c hc

variable {groups : List Text} {hs : List Nat}

theorem groups_units (h : Groups groups hs) : ∀ g ∈ groups, ∀ c ∈ g, CoreUnit c := by
  induction h with
  | nil => exact nofun
  | dotted h => exact List.forall_mem_singleton.mpr (dotted_units h).2
  | cons head _ ih => exact List.forall_mem_cons.mpr ⟨coreUnit_of_hextet head, ih⟩

theorem joinGroups_units (h : ∀ g ∈ groups, ∀ c ∈ g, CoreUnit c) : ∀ c ∈ joinGroups groups, CoreUnit c := by
  intro c hc
  rcases mem_intercalate hc with rfl | ⟨g, hg, hc⟩
  · exact .inr (.inl rfl)
  · exact h g hg c hc

theorem colon_mem_joinGroups (h : 2 ≤ groups.length) : colon ∈ joinGroups groups := by
  match groups, h with
  | g :: g' :: groups, _ => simp [joinGroups, List.intercalate_cons_cons]

theorem colons_units (h : Colons text hs) : colon ∈ text ∧ ∀ c ∈ text, CoreUnit c := by
  cases h with
  | full h length =>
    refine ⟨colon_mem_joinGroups ?_, joinGroups_units (groups_units h)⟩
    rcases groups_cases h with hall | ⟨front, text, high, a, b, c, d, rfl, rfl, hfront, -⟩
    · rw [hall.length_eq, length]
      decide
    · have hlength := hfront.length_eq
      simp only [List.length_append, List.length_cons, List.length_nil] at length ⊢
      omega
  | compressed hleft hright length =>
    refine ⟨by simp, ?_⟩
    simp only [List.mem_append, List.mem_cons, List.not_mem_nil, or_false, or_self]
    rintro c ((hc | rfl) | hc)
    · exact joinGroups_units (groups_units (groups_of_forall₂ hleft)) c hc
    · exact .inr (.inl rfl)
    · exact joinGroups_units (groups_units hright) c hc

variable {a : Address}

theorem spells_units (h : Spells text a) : text ≠ [] ∧ ∀ c ∈ text, CoreUnit c := by
  cases h with
  | dotted h => exact dotted_units h
  | colons h => exact ⟨List.ne_nil_of_mem (colons_units h).1, (colons_units h).2⟩

/-! ## Capitals -/

theorem hexDigit_lowerUnit (h : (hexDigit c).isSome = true) : hexDigit (lowerUnit c) = hexDigit c := by
  have hcases := coreUnit_cases (.inr (.inr h))
  have hall : ∀ c < 128, (hexDigit c).isSome = true → hexDigit (lowerUnit c) = hexDigit c := by decide
  exact hall c (by omega) h

theorem isLower_map (t : Text) : IsLower (t.map lowerUnit) := by
  intro c hc
  obtain ⟨d, -, rfl⟩ := List.mem_map.mp hc
  exact lowerUnit_lowerUnit d

variable {t : Text}

theorem parseHex_lower (h : ∀ c ∈ t, (hexDigit c).isSome = true) : parseHex (t.map lowerUnit) = parseHex t := by
  induction t using List.reverseRecOn with
  | nil => rfl
  | append_singleton t c ih =>
    rw [List.map_append, List.map_singleton, parseHex_concat, parseHex_concat, ih fun d hd => h d (List.mem_append_left _ hd),
      hexDigit_lowerUnit (h c (by simp))]

theorem dotted_lower {octets : List Nat} (h : Dotted text octets) : text.map lowerUnit = text := by
  have hdigit {part : Text} {n : Nat} (hpart : Octet part n) : part.map lowerUnit = part := by
    refine (List.map_congr_left fun c hc => ?_).trans (List.map_id _)
    have hc := hpart.digits c hc
    rw [isDigit, Bool.and_eq_true, decide_eq_true_eq, decide_eq_true_eq] at hc
    exact if_neg (by omega)
  have hdot : lowerUnit dot = dot := rfl
  cases h with
  | intro hp hq hr hs =>
    simp [List.intercalate_cons_cons, hdigit hp, hdigit hq, hdigit hr, hdigit hs, hdot]

theorem hextet_lower {group : Text} {h : Nat} (hgroup : Hextet group h) : Hextet (group.map lowerUnit) h := by
  refine ⟨by rw [List.length_map]; exact hgroup.length, ?_, (parseHex_lower hgroup.digits).trans hgroup.value⟩
  intro c hc
  obtain ⟨d, hd, rfl⟩ := List.mem_map.mp hc
  rw [hexDigit_lowerUnit (hgroup.digits d hd)]
  exact hgroup.digits d hd

theorem groups_lower (h : Groups groups hs) : Groups (groups.map (·.map lowerUnit)) hs := by
  induction h with
  | nil => exact .nil
  | dotted h =>
    rw [List.map_singleton, dotted_lower h]
    exact .dotted h
  | cons head _ ih => exact .cons (hextet_lower head) ih

theorem joinGroups_lower (groups : List Text) : joinGroups (groups.map (·.map lowerUnit)) = (joinGroups groups).map lowerUnit := by
  have hcolon : lowerUnit colon = colon := rfl
  induction groups with
  | nil => rfl
  | cons g groups ih =>
    cases groups with
    | nil => simp [joinGroups]
    | cons g' groups =>
      simp only [joinGroups, List.map_cons, List.intercalate_cons_cons, List.map_append, List.map_nil, hcolon] at ih ⊢
      rw [ih]

theorem colons_lower (h : Colons text hs) : Colons (text.map lowerUnit) hs := by
  have hcolons : ([colon, colon] : Text).map lowerUnit = [colon, colon] := rfl
  cases h with
  | full h length =>
    rw [← joinGroups_lower]
    exact .full (groups_lower h) length
  | compressed hleft hright length =>
    rw [List.map_append, List.map_append, ← joinGroups_lower, ← joinGroups_lower, hcolons]
    exact .compressed (List.forall₂_map_left_iff.mpr (hleft.imp fun _ _ => hextet_lower)) (groups_lower hright) length

/-! ## Reading -/

def readAddress (t : Text) : Option Address :=
  match parseIpv4 t with
  | some octets => some (.v4 (value 256 octets))
  | none => (readGroups t).map fun hextets => .v6 (value 65536 hextets)

theorem readAddress_of_spells (h : Spells text a) : readAddress (text.map lowerUnit) = some a := by
  rw [readAddress]
  cases h with
  | dotted h => rw [dotted_lower h, parseIpv4_eq_some_iff.mpr h]
  | colons h =>
    have hlower := colons_lower h
    have hnone : parseIpv4 (text.map lowerUnit) = none := by
      rw [Option.eq_none_iff_forall_ne_some]
      intro octets hsome
      exact colon_notMem_of_dotted (parseIpv4_eq_some_iff.mp hsome) (colons_units hlower).1
    rw [hnone, readGroups_of_colons (isLower_map _) hlower]
    rfl

theorem spells_of_readAddress (h : readAddress text = some a) : Spells text a := by
  rw [readAddress] at h
  split at h
  · rename_i octets hoctets
    obtain rfl := Option.some.inj h
    exact .dotted (parseIpv4_eq_some_iff.mp hoctets)
  · obtain ⟨hs, hread, rfl⟩ := Option.map_eq_some_iff.mp h
    exact .colons (colons_of_readGroups hread)

theorem spells_unique {b : Address} (ha : Spells text a) (hb : Spells text b) : a = b :=
  Option.some.inj ((readAddress_of_spells ha).symm.trans (readAddress_of_spells hb))

theorem denotes_core {before core after : Text} (hbefore : ∀ c ∈ before, Opens c) (hcore : core ≠ [] ∧ ∀ c ∈ core, CoreUnit c)
    (hafter : ∀ c ∈ after.head?, Closes c) :
    ((before ++ core ++ after).dropWhile fun c => decide (Opens c)).takeWhile (fun c => decide (CoreUnit c)) = core := by
  have hopens : ∀ c ∈ before, decide (Opens c) = true := fun c hc => decide_eq_true (hbefore c hc)
  have hunits : ∀ c ∈ core, decide (CoreUnit c) = true := fun c hc => decide_eq_true (hcore.2 c hc)
  rw [List.append_assoc, List.dropWhile_append_of_pos hopens]
  obtain ⟨c, core, rfl⟩ := List.exists_cons_of_ne_nil hcore.1
  rw [List.cons_append, List.dropWhile_cons_of_neg (by simpa using not_opens_of_coreUnit (hcore.2 c List.mem_cons_self)),
    ← List.cons_append, List.takeWhile_append_of_pos hunits]
  cases after with
  | nil => simp
  | cons d after =>
    have hd := hafter d rfl
    rw [List.takeWhile_cons_of_neg (by simpa using fun hunit => not_closes_of_coreUnit hunit hd), List.append_nil]

theorem denotes_unique {b : Address} (ha : Denotes text a) (hb : Denotes text b) : a = b := by
  obtain ⟨before, core, after, rfl, hbefore, hafter, hcore⟩ := ha
  obtain ⟨before', core', after', htext, hbefore', hafter', hcore'⟩ := hb
  have h := denotes_core hbefore (spells_units hcore) hafter
  rw [htext, denotes_core hbefore' (spells_units hcore') hafter'] at h
  exact spells_unique hcore (h ▸ hcore')

/-! ## What stands around an address -/

theorem denotes_wrap {before after : Text} (h : Denotes text a) (hbefore : ∀ c ∈ before, Opens c)
    (hafter : ∀ c ∈ after.head?, Closes c) : Denotes (before ++ text ++ after) a := by
  obtain ⟨before', core, after', rfl, hbefore', hafter', hcore⟩ := h
  refine ⟨before ++ before', core, after' ++ after, by simp, ?_, ?_, hcore⟩
  · exact fun c hc => (List.mem_append.mp hc).elim (hbefore c) (hbefore' c)
  · cases after' with
    | nil => exact hafter
    | cons d after' => exact hafter'

theorem denotes_of_spells (h : Spells text a) : Denotes text a :=
  ⟨[], text, [], by simp, nofun, nofun, h⟩

def isWhiteSpace (c : Nat) : Bool := decide (c ∈ Text.whiteSpace)

theorem mem_whiteSpace (h : isWhiteSpace c = true) : c ∈ Text.whiteSpace := of_decide_eq_true h

theorem trim_eq (t : Text) : t.trim = (t.dropWhile isWhiteSpace).rdropWhile isWhiteSpace := rfl

theorem denotes_of_trim (h : Denotes t.trim a) : Denotes t a := by
  have hend := List.rdropWhile_append_rtakeWhile (p := isWhiteSpace) (l := t.dropWhile isWhiteSpace)
  have hstart : t = t.takeWhile isWhiteSpace ++ t.trim ++ (t.dropWhile isWhiteSpace).rtakeWhile isWhiteSpace := by
    rw [List.append_assoc, trim_eq, hend, List.takeWhile_append_dropWhile]
  rw [hstart]
  refine denotes_wrap h (fun c hc => .inl ?_) fun c hc => .inl ?_
  · exact mem_whiteSpace (List.mem_takeWhile_imp hc)
  · exact mem_whiteSpace (List.mem_rtakeWhile_imp (List.mem_of_mem_head? hc))

theorem dropWhile_core {p : Nat → Bool} {core : Text} (hcore : core ≠ [] ∧ ∀ c ∈ core, p c = false) (before after : Text) :
    (before ++ core ++ after).dropWhile p = before.dropWhile p ++ core ++ after := by
  obtain ⟨c, core, rfl⟩ := List.exists_cons_of_ne_nil hcore.1
  have hc := hcore.2 c List.mem_cons_self
  induction before with
  | nil => simp [hc]
  | cons d before ih =>
    cases hd : p d with
    | true => simpa [hd] using ih
    | false => simp [hd]

theorem rdropWhile_core {p : Nat → Bool} {core : Text} (hcore : core ≠ [] ∧ ∀ c ∈ core, p c = false) (before after : Text) :
    (before ++ core ++ after).rdropWhile p = before ++ core ++ after.rdropWhile p := by
  have hreverse : core.reverse ≠ [] ∧ ∀ c ∈ core.reverse, p c = false :=
    ⟨by simpa using hcore.1, fun c hc => hcore.2 c (List.mem_reverse.mp hc)⟩
  have h := dropWhile_core hreverse after.reverse before.reverse
  rw [List.rdropWhile, List.rdropWhile, List.reverse_append, List.reverse_append, ← List.append_assoc, h]
  simp

theorem denotes_trim (h : Denotes t a) : Denotes t.trim a := by
  obtain ⟨before, core, after, rfl, hbefore, hafter, hspells⟩ := h
  have hunits := spells_units hspells
  have hcore : core ≠ [] ∧ ∀ c ∈ core, isWhiteSpace c = false := by
    refine ⟨hunits.1, fun c hc => ?_⟩
    rw [isWhiteSpace, decide_eq_false_iff_not]
    exact fun hspace => not_opens_of_coreUnit (hunits.2 c hc) (.inl hspace)
  rw [trim_eq, dropWhile_core hcore, rdropWhile_core hcore]
  refine ⟨_, core, _, rfl, ?_, ?_, hspells⟩
  · exact fun c hc => hbefore c ((List.dropWhile_suffix _).subset hc)
  · obtain ⟨rest, hrest⟩ := List.rdropWhile_prefix (p := isWhiteSpace) (l := after)
    intro c hc
    refine hafter c ?_
    rw [← hrest, List.head?_append, Option.mem_def.mp hc]
    rfl

/-! ## Brackets and zones -/

theorem stripIpv6Brackets_cases (value : Text) :
    stripIpv6Brackets value = value ∨ value = 91 :: stripIpv6Brackets value ++ [93] := by
  rw [stripIpv6Brackets]
  split
  · rename_i h
    refine .inr ?_
    rw [Bool.and_eq_true, Text.startsWith, Text.endsWith, List.isPrefixOf_iff_prefix, List.isSuffixOf_iff_suffix] at h
    obtain ⟨⟨rest, hstart⟩, ⟨front, hend⟩⟩ := h
    have hopening : Text.of "[" = [91] := by decide
    have hclosing : Text.of "]" = [93] := by decide
    rw [hopening] at hstart
    rw [hclosing] at hend
    subst hstart
    rcases List.eq_nil_or_concat rest with rfl | ⟨middle, last, rfl⟩
    · have hlast : front ++ [93] = [] ++ [91] := hend
      exact absurd (List.append_inj' hlast rfl).2 (by decide)
    · rw [List.concat_eq_append, ← List.append_assoc] at hend
      obtain rfl := List.singleton_inj.mp (List.append_inj' hend rfl).2
      simp
  · exact .inl rfl

theorem denotes_of_stripIpv6Brackets (h : Denotes (stripIpv6Brackets t) a) : Denotes t a := by
  rcases stripIpv6Brackets_cases t with heq | heq
  · rwa [heq] at h
  · rw [heq]
    exact @denotes_wrap _ _ [91] _ h (by simp [Opens]) (by simp [Closes])

theorem denotes_of_stripIpv6Zone (h : Denotes (stripIpv6Zone t) a) : Denotes t a := by
  have hsplit : t = [] ++ stripIpv6Zone t ++ t.dropWhile (· ≠ percent) := List.takeWhile_append_dropWhile.symm
  rw [hsplit]
  refine denotes_wrap h nofun fun c hc => .inr (.inr ?_)
  have hstop := List.head?_dropWhile_not (fun c => decide (c ≠ percent)) t
  rw [Option.mem_def.mp hc] at hstop
  have hpercent : c = percent := by simpa using hstop
  exact hpercent

theorem denotes_stripIpv6Brackets (h : Denotes t a) : Denotes (stripIpv6Brackets t) a := by
  rcases stripIpv6Brackets_cases t with heq | heq
  · rwa [heq]
  obtain ⟨before, core, after, ht, hbefore, hafter, hspells⟩ := h
  have hunits := spells_units hspells
  obtain ⟨c, core, rfl⟩ := List.exists_cons_of_ne_nil hunits.1
  rw [heq] at ht
  -- the brackets are not of the core
  cases before with
  | nil =>
    rw [List.nil_append, List.cons_append, List.cons_append] at ht
    exact absurd (.inr (List.cons.inj ht).1.symm) (not_opens_of_coreUnit (hunits.2 c List.mem_cons_self))
  | cons d before =>
    rcases List.eq_nil_or_concat after with rfl | ⟨after, last, rfl⟩
    · rw [List.append_nil] at ht
      have hlast := congrArg List.getLast? ht
      have hmem : 93 ∈ c :: core := by
        rw [List.getLast?_append_of_ne_nil _ (List.cons_ne_nil _ _), List.getLast?_append_of_ne_nil _ (List.cons_ne_nil _ _)] at hlast
        exact List.mem_of_getLast? hlast.symm
      exact absurd (.inr (.inl rfl)) (not_closes_of_coreUnit (hunits.2 93 hmem))
    · rw [List.concat_eq_append, ← List.append_assoc] at ht
      have hinner := (List.append_inj' ht rfl).1
      refine ⟨before, c :: core, after, (List.cons.inj hinner).2, fun c hc => hbefore c (List.mem_cons_of_mem _ hc), ?_, hspells⟩
      intro c hc
      refine hafter c ?_
      rw [List.concat_eq_append, List.head?_append, Option.mem_def.mp hc]
      rfl

theorem denotes_stripIpv6Zone (h : Denotes t a) : Denotes (stripIpv6Zone t) a := by
  obtain ⟨before, core, after, rfl, hbefore, hafter, hspells⟩ := h
  have hunits := spells_units hspells
  have hopens : ∀ c ∈ before, decide (c ≠ percent) = true := by
    intro c hc
    rw [decide_eq_true_eq]
    rintro rfl
    exact absurd (hbefore percent hc) (by decide)
  have hcore : ∀ c ∈ core, decide (c ≠ percent) = true := by
    intro c hc
    rw [decide_eq_true_eq]
    rintro rfl
    exact absurd (hunits.2 percent hc) (by decide)
  have hall : ∀ c ∈ before ++ core, decide (c ≠ percent) = true := fun c hc =>
    (List.mem_append.mp hc).elim (hopens c) (hcore c)
  rw [stripIpv6Zone, List.takeWhile_append_of_pos hall]
  refine ⟨before, core, _, rfl, hbefore, ?_, hspells⟩
  obtain ⟨rest, hrest⟩ := List.takeWhile_prefix (l := after) (fun c => decide (c ≠ percent))
  intro c hc
  refine hafter c ?_
  rw [← hrest, List.head?_append, Option.mem_def.mp hc]
  rfl

/-! ## The reading of the guard -/

section Reading

variable (cases : CaseMapping)

theorem denotes_toLowerCase (h : Denotes t a) : Denotes (cases.toLowerCase t) a := by
  obtain ⟨before, core, after, rfl, hbefore, hafter, hspells⟩ := h
  have hunits := spells_units hspells
  have hspace {c : Nat} (h : c ∈ Text.whiteSpace) : lowerUnit c = c := if_neg (by have := whiteSpace_cases h; omega)
  have hopens : before.map lowerUnit = before := by
    refine (List.map_congr_left fun c hc => ?_).trans (List.map_id _)
    rcases hbefore c hc with h | rfl
    · exact hspace h
    · rfl
  have hopensPlain : ∀ c ∈ before, IsPlain c := fun c hc =>
    (hbefore c hc).elim .inr fun h => .inl (by omega)
  have hcorePlain : ∀ c ∈ core, IsPlain c := fun c hc => isPlain_of_coreUnit (hunits.2 c hc)
  have hcore : Spells (core.map lowerUnit) a := spells_of_readAddress (readAddress_of_spells hspells)
  cases after with
  | nil =>
    rw [List.append_nil, cases.plain _ fun c hc => (List.mem_append.mp hc).elim (hopensPlain c) (hcorePlain c), List.map_append, hopens,
      ← List.append_nil (before ++ _)]
    exact ⟨before, _, [], rfl, hbefore, nofun, hcore⟩
  | cons d after =>
    have hd := hafter d rfl
    have hclosesPlain : IsPlain d := by
      rcases hd with h | rfl | rfl
      · exact .inr h
      · exact .inl (by decide)
      · exact .inl (by decide)
    have hcloses : lowerUnit d = d := by
      rcases hd with h | rfl | rfl
      · exact hspace h
      · rfl
      · rfl
    have hplain : ∀ c ∈ before ++ core ++ [d] ++ [], IsPlain c := by
      simp only [List.append_nil, List.mem_append, List.mem_singleton]
      rintro c ((hc | hc) | rfl)
      · exact hopensPlain c hc
      · exact hcorePlain c hc
      · exact hclosesPlain
    obtain ⟨after', houter⟩ := cases.outer (before ++ core ++ [d]) after [] hplain
    have htext : before ++ core ++ d :: after = before ++ core ++ [d] ++ after ++ [] := by simp
    rw [htext, houter]
    refine ⟨before, core.map lowerUnit, d :: after', by simp [hopens, hcloses], hbefore, ?_, hcore⟩
    intro c hc
    obtain rfl := Option.some.inj hc
    exact hd

theorem denotes_normalizeInternalHost (h : Denotes t a) : Denotes (normalizeInternalHost cases t) a :=
  denotes_stripIpv6Brackets (denotes_toLowerCase cases (denotes_trim h))

theorem denotes_normalizeAddress (h : Denotes t a) : Denotes (normalizeAddress cases t) a :=
  denotes_stripIpv6Zone (denotes_normalizeInternalHost cases h)

def guardAddress (t : Text) : Option Address :=
  match parseIpv4 (normalizeAddress cases t) with
  | some octets => some (.v4 (value 256 octets))
  | none => (parseIpv6 cases (normalizeAddress cases t)).map fun hextets => .v6 (value 65536 hextets)

theorem stripIpv6Brackets_within (t : Text) : stripIpv6Brackets t <:+: t := by
  rcases stripIpv6Brackets_cases t with heq | heq
  · simp only [heq, List.infix_rfl]
  · exact ⟨[91], [93], heq.symm⟩

theorem stripIpv6Zone_within (t : Text) : stripIpv6Zone t <:+: t := (List.takeWhile_prefix _).isInfix

theorem normalizeInternalHost_within (t : Text) : normalizeInternalHost cases t <:+: cases.toLowerCase t.trim :=
  stripIpv6Brackets_within _

theorem normalizeAddress_within (t : Text) : normalizeAddress cases t <:+: cases.toLowerCase t.trim :=
  (stripIpv6Zone_within _).trans (normalizeInternalHost_within cases t)

theorem parseIpv6_normalizeAddress (t : Text) :
    parseIpv6 cases (normalizeAddress cases t) = readGroups (stripIpv6Zone (stripIpv6Brackets (normalizeAddress cases t))) := by
  rw [parseIpv6_eq, cases.settled _ t.trim]
  exact ((stripIpv6Zone_within _).trans (stripIpv6Brackets_within _)).trans (normalizeAddress_within cases t)

theorem denotes_of_guardAddress (h : guardAddress cases t = some a) :
    Denotes (normalizeAddress cases t) a := by
  rw [guardAddress] at h
  split at h
  · rename_i octets hoctets
    obtain rfl := Option.some.inj h
    exact denotes_of_spells (.dotted (parseIpv4_eq_some_iff.mp hoctets))
  · obtain ⟨hs, hread, rfl⟩ := Option.map_eq_some_iff.mp h
    rw [parseIpv6_normalizeAddress] at hread
    exact denotes_of_stripIpv6Brackets (denotes_of_stripIpv6Zone (denotes_of_spells (.colons (colons_of_readGroups hread))))

theorem guardAddress_eq {b : Address} (ha : Denotes t a) (hb : guardAddress cases t = some b) : b = a :=
  denotes_unique (denotes_of_guardAddress cases hb) (denotes_normalizeAddress cases ha)

theorem isIpLiteral_iff : isIpLiteral cases t = true ↔ ∃ a, guardAddress cases t = some a := by
  rw [isIpLiteral, guardAddress]
  cases parseIpv4 (normalizeAddress cases t) with
  | some octets => simp
  | none => cases parseIpv6 cases (normalizeAddress cases t) <;> simp

theorem colons_bounds (h : Colons text hs) : hs.length = 8 ∧ ∀ h ∈ hs, h < 65536 := by
  have hhextet {group : Text} {h : Nat} (hgroup : Hextet group h) : h < 65536 := by
    have hlt := parseHex_lt group
    rw [hgroup.value] at hlt
    exact Nat.lt_of_lt_of_le hlt (Nat.pow_le_pow_right (by decide) hgroup.length.2)
  have hgroups {groups : List Text} {hs : List Nat} (h : Groups groups hs) : ∀ h ∈ hs, h < 65536 := by
    induction h with
    | nil => exact nofun
    | dotted h => simpa using (hextetsOf_eq h).2
    | cons head _ ih => exact List.forall_mem_cons.mpr ⟨hhextet head, ih⟩
  cases h with
  | full h length => exact ⟨length, hgroups h⟩
  | compressed hleft hright length =>
    refine ⟨by simp; omega, ?_⟩
    simp only [List.mem_append, List.mem_replicate]
    rintro h ((hmem | ⟨-, rfl⟩) | hmem)
    · exact hgroups (groups_of_forall₂ hleft) h hmem
    · decide
    · exact hgroups hright h hmem

theorem isPrivateIpv4_of_dotted {octets : List Nat} (h : Dotted text octets) :
    isPrivateIpv4 octets = true ↔ ¬ Global (.v4 (value 256 octets)) := by
  obtain ⟨a, b, c, d, rfl⟩ : ∃ a b c d, octets = [a, b, c, d] := by
    cases h
    exact ⟨_, _, _, _, rfl⟩
  obtain ⟨ha, hb, hc, hd⟩ := octets_lt h
  rw [isPrivateIpv4_iff ha hb hc hd, Global]
  simp only [not_forall, not_not, exists_prop]

theorem isInternalHextets_of_colons (h : Colons text hs) :
    isInternalHextets hs = true ↔ ¬ Global (.v6 (value 65536 hs)) := by
  obtain ⟨hlength, hlt⟩ := colons_bounds h
  match hs, hlength, hlt with
  | [_, _, _, _, _, _, _, _], _, hlt => exact isInternalHextets_iff hlt

theorem isInternalEgressIp_iff (h : guardAddress cases t = some a) :
    isInternalEgressIp cases t = true ↔ ¬ Global a := by
  rw [guardAddress] at h
  rw [isInternalEgressIp]
  cases hoctets : parseIpv4 (normalizeAddress cases t) with
  | some octets =>
    simp only [hoctets] at h ⊢
    obtain rfl := Option.some.inj h
    exact isPrivateIpv4_of_dotted (parseIpv4_eq_some_iff.mp hoctets)
  | none =>
    simp only [hoctets] at h ⊢
    obtain ⟨hs, hread, rfl⟩ := Option.map_eq_some_iff.mp h
    have hcolons := hread
    rw [parseIpv6_normalizeAddress] at hcolons
    have hcolons := colons_of_readGroups hcolons
    have hmem : colon ∈ normalizeAddress cases t :=
      ((stripIpv6Zone_within _).trans (stripIpv6Brackets_within _)).subset (colons_units hcolons).1
    rw [isInternalIpv6, hread]
    simpa [hmem] using isInternalHextets_of_colons hcolons

end Reading

end Veryfront.Security.Egress
