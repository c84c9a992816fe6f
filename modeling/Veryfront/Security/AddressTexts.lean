import Veryfront.Lib.Pointwise
import Veryfront.Security.WorkerEgressGuard

/-!
# Texts of addresses

The parsers of the guard read a text as what it spells.
-/

namespace Veryfront.Security.Egress

open Lib Lib.Cidr Network

/-! ## Octets -/

theorem parseOctet_eq_some_iff {part : Text} {n : Nat} : parseOctet part = some n ↔ Octet part n := by
  rw [parseOctet]
  constructor
  · intro h
    split at h
    · rename_i hpart
      split at h
      · cases h
      · rename_i hle
        exact ⟨⟨hpart.1, hpart.2.1⟩, List.all_eq_true.mp hpart.2.2, Option.some.inj h, by rw [← Option.some.inj h]; omega⟩
    · cases h
  · intro h
    rw [if_pos ⟨h.length.1, h.length.2, List.all_eq_true.mpr h.digits⟩, h.value, if_neg (by have := h.le; omega)]

theorem dot_notMem {part : Text} {n : Nat} (h : Octet part n) : dot ∉ part := by
  intro hmem
  exact absurd (h.digits dot hmem) (by decide)

theorem exists_four {parts : List Text} (h : parts.length = 4) : ∃ p q r s, parts = [p, q, r, s] := by
  match parts, h with
  | [p, q, r, s], _ => exact ⟨p, q, r, s, rfl⟩

variable {text : Text}

theorem parseIpv4_eq_some_iff {octets : List Nat} : parseIpv4 text = some octets ↔ Dotted text octets := by
  rw [parseIpv4]
  constructor
  · intro h
    split at h
    · cases h
    rename_i hlength
    have hparts := mapM_eq_some_iff.mp h
    have hjoin : [dot].intercalate (text.splitOn dot) = text := List.intercalate_splitOn dot
    generalize text.splitOn dot = parts at hlength hparts hjoin
    obtain ⟨p, q, r, s, rfl⟩ := exists_four (not_not.mp hlength)
    simp only [List.forall₂_cons_left_iff, List.forall₂_nil_left_iff] at hparts
    obtain ⟨a, _, hp, ⟨b, _, hq, ⟨c, _, hr, ⟨d, _, hs, rfl, rfl⟩, rfl⟩, rfl⟩, rfl⟩ := hparts
    rw [← hjoin]
    exact .intro (parseOctet_eq_some_iff.mp hp) (parseOctet_eq_some_iff.mp hq) (parseOctet_eq_some_iff.mp hr)
      (parseOctet_eq_some_iff.mp hs)
  · rintro ⟨hp, hq, hr, hs⟩
    rw [List.splitOn_intercalate dot _ (List.cons_ne_nil _ _), if_neg (by simp), mapM_eq_some_iff]
    · exact .cons (parseOctet_eq_some_iff.mpr hp) (.cons (parseOctet_eq_some_iff.mpr hq)
        (.cons (parseOctet_eq_some_iff.mpr hr) (.cons (parseOctet_eq_some_iff.mpr hs) .nil)))
    · simp only [List.forall_mem_cons]
      exact ⟨dot_notMem hp, dot_notMem hq, dot_notMem hr, dot_notMem hs, nofun⟩

/-! ## Groups -/

def IsLower (t : Text) : Prop := ∀ c ∈ t, lowerUnit c = c

theorem isLowerHexDigit_iff {c : Nat} : isLowerHexDigit c = true ↔ (hexDigit c).isSome = true ∧ lowerUnit c = c := by
  simp only [isLowerHexDigit, isDigit, hexDigit, lowerUnit, Bool.or_eq_true, Bool.and_eq_true, decide_eq_true_eq]
  split
  · simp only [Option.isSome_some, true_and]
    split <;> omega
  split
  · simp only [Option.isSome_some, true_and]
    split <;> omega
  split
  · simp only [Option.isSome_some, true_and]
    split <;> omega
  · simp only [Option.isSome_none, Bool.false_eq_true, false_and, iff_false]
    omega

variable {group : Text}

theorem parseHextet_eq_some_iff (hlower : IsLower group) {h : Nat} :
    parseHextet group = some h ↔ Hextet group h := by
  have hdigits : group.all isLowerHexDigit = true ↔ ∀ c ∈ group, (hexDigit c).isSome = true := by
    rw [List.all_eq_true]
    exact ⟨fun hall c hc => (isLowerHexDigit_iff.mp (hall c hc)).1, fun hall c hc => isLowerHexDigit_iff.mpr ⟨hall c hc, hlower c hc⟩⟩
  rw [parseHextet]
  constructor
  · intro h
    split at h
    · rename_i hgroup
      exact ⟨⟨hgroup.1, hgroup.2.1⟩, hdigits.mp hgroup.2.2, Option.some.inj h⟩
    · cases h
  · intro h
    rw [if_pos ⟨h.length.1, h.length.2, hdigits.mpr h.digits⟩, h.value]

theorem hextet_of_parseHextet {h : Nat} (hparse : parseHextet group = some h) : Hextet group h := by
  have hlower : IsLower group := by
    rw [parseHextet] at hparse
    split at hparse
    · rename_i hgroup
      exact fun c hc => (isLowerHexDigit_iff.mp (List.all_eq_true.mp hgroup.2.2 c hc)).2
    · cases hparse
  exact (parseHextet_eq_some_iff hlower).mp hparse

theorem hextet_toHex {n : Nat} (h : n < 65536) : Hextet (toHex n) n := by
  refine ⟨length_toHex h, ?_, parseHex_toHex n⟩
  intro c hc
  obtain ⟨digit, hdigit, rfl⟩ := mem_toHex hc
  rw [hexDigit_lowerHex hdigit]
  rfl

theorem isLower_toHex (n : Nat) : IsLower (toHex n) := by
  have hdigits : ∀ digit < 16, lowerUnit (lowerHex digit) = lowerHex digit := by decide
  intro c hc
  obtain ⟨digit, hdigit, rfl⟩ := mem_toHex hc
  exact hdigits digit hdigit

theorem colon_notMem_of_hextet {h : Nat} (hgroup : Hextet group h) : colon ∉ group := by
  intro hmem
  exact absurd (hgroup.digits colon hmem) (by decide)

theorem ne_nil_of_hextet {h : Nat} (hgroup : Hextet group h) : group ≠ [] :=
  List.length_pos_iff.mp hgroup.length.1

theorem dot_mem_of_dotted {octets : List Nat} (h : Dotted text octets) : dot ∈ text := by
  cases h with
  | intro => simp [List.intercalate_cons_cons]

theorem colon_notMem_of_dotted {octets : List Nat} (h : Dotted text octets) : colon ∉ text := by
  have hoctet {part : Text} {n : Nat} (hpart : Octet part n) : colon ∉ part := fun hmem =>
    absurd (hpart.digits colon hmem) (by decide)
  have hne : colon ≠ dot := by decide
  cases h with
  | intro hp hq hr hs =>
    simp [List.intercalate_cons_cons, hoctet hp, hoctet hq, hoctet hr, hoctet hs, hne]

theorem octets_lt {a b c d : Nat} (h : Dotted text [a, b, c, d]) : a < 256 ∧ b < 256 ∧ c < 256 ∧ d < 256 := by
  cases h with
  | intro hp hq hr hs =>
    have := hp.le
    have := hq.le
    have := hr.le
    have := hs.le
    omega

variable {groups : List Text} {hs : List Nat}

theorem groups_cases (h : Groups groups hs) :
    List.Forall₂ Hextet groups hs ∨
      ∃ front text high a b c d, groups = front ++ [text] ∧ hs = high ++ [256 * a + b, 256 * c + d] ∧
        List.Forall₂ Hextet front high ∧ Dotted text [a, b, c, d] := by
  induction h with
  | nil => exact .inl .nil
  | dotted h => exact .inr ⟨[], _, [], _, _, _, _, rfl, rfl, .nil, h⟩
  | cons head _ ih =>
    rcases ih with hall | ⟨front, text, high, a, b, c, d, rfl, rfl, hfront, htext⟩
    · exact .inl (.cons head hall)
    · exact .inr ⟨_ :: front, text, _ :: high, a, b, c, d, rfl, rfl, .cons head hfront, htext⟩

theorem groups_of_forall₂ (h : List.Forall₂ Hextet groups hs) : Groups groups hs := by
  induction h with
  | nil => exact .nil
  | cons head _ ih => exact .cons head ih

variable {front : List Text}

theorem groups_concat {high : List Nat} (h : List.Forall₂ Hextet front high) {a b c d : Nat}
    (htext : Dotted text [a, b, c, d]) : Groups (front ++ [text]) (high ++ [256 * a + b, 256 * c + d]) := by
  induction h with
  | nil => exact .dotted htext
  | cons head _ ih => exact .cons head ih

/-! ## Joined groups -/

theorem joinGroups_concat (hfront : front ≠ []) (text : Text) :
    joinGroups (front ++ [text]) = joinGroups front ++ colon :: text := by
  induction front with
  | nil => exact absurd rfl hfront
  | cons g front ih =>
    cases front with
    | nil => simp [joinGroups, List.intercalate_cons_cons]
    | cons g' front =>
      have hrest := ih (List.cons_ne_nil _ _)
      simp only [joinGroups, List.cons_append, List.intercalate_cons_cons] at hrest ⊢
      rw [hrest]
      simp

theorem splitGroups_joinGroups (hcolon : ∀ g ∈ groups, colon ∉ g) (hne : ∀ g ∈ groups, g ≠ []) :
    splitGroups (joinGroups groups) = groups := by
  cases groups with
  | nil => rfl
  | cons g groups =>
    have hjoin : joinGroups (g :: groups) ≠ [] := by
      intro h
      cases groups with
      | nil => exact hne g List.mem_cons_self (by simpa [joinGroups] using h)
      | cons => simp [joinGroups, List.intercalate_cons_cons] at h
    rw [splitGroups, if_neg hjoin, joinGroups, List.splitOn_intercalate colon hcolon (List.cons_ne_nil _ _)]

theorem joinGroups_splitGroups (t : Text) : joinGroups (splitGroups t) = t := by
  rw [splitGroups]
  split
  · rename_i h
    rw [h]
    rfl
  · exact List.intercalate_splitOn colon

theorem splitOn_double (l r : Text) : (l ++ [colon, colon] ++ r).splitOn colon = l.splitOn colon ++ [] :: r.splitOn colon := by
  have hempty : ((colon :: r).splitOn colon : List Text) = [] :: r.splitOn colon := List.splitOn_append_cons_self [] r
  rw [List.append_assoc, List.cons_append, List.singleton_append, List.splitOn_append_cons_self, hempty]

theorem not_double_of_groups (hcolon : ∀ g ∈ groups, colon ∉ g) (hne : ∀ g ∈ groups, g ≠ []) :
    ¬ [colon, colon] <:+: joinGroups groups ++ [colon] := by
  intro h
  cases groups with
  | nil => exact absurd h.length_le (by decide)
  | cons g groups =>
    obtain ⟨l, r, h⟩ := h
    have hsplit := congrArg (List.splitOn colon) h
    have hlast : (joinGroups (g :: groups) ++ [colon]).splitOn colon = g :: groups ++ [[]] := by
      rw [List.splitOn_append_cons_self, joinGroups, List.splitOn_intercalate colon hcolon (List.cons_ne_nil _ _), List.splitOn_nil]
    rw [splitOn_double, hlast] at hsplit
    have hr := List.dropLast_append_getLast (List.splitOn_ne_nil colon r)
    rw [← hr, ← List.cons_append, ← List.append_assoc] at hsplit
    have hgroups := (List.append_inj' hsplit rfl).1
    exact hne [] (hgroups ▸ by simp) rfl

/-! ## The first two colons -/

theorem splitAtFirst_double {l : Text} (h : ¬ [colon, colon] <:+: l ++ [colon]) (r : Text) :
    splitAtFirst [colon, colon] (l ++ [colon, colon] ++ r) = some (l, r) := by
  induction l with
  | nil => simp [splitAtFirst]
  | cons c l ih =>
    rw [List.cons_append, List.infix_cons_iff, not_or] at h
    have hstart : ¬ [colon, colon].isPrefixOf (c :: (l ++ [colon, colon] ++ r)) = true := by
      intro hstart
      refine h.1 ?_
      rw [List.isPrefixOf_iff_prefix] at hstart
      cases l with
      | nil => simpa using hstart
      | cons d l => simpa using hstart
    rw [List.cons_append, List.cons_append, splitAtFirst, if_neg hstart, ih h.2]
    rfl

/-! ## The last colon -/

theorem splitAtLastColon_append (front : Text) (h : colon ∉ text) :
    splitAtLastColon (front ++ colon :: text) = some (front, text) := by
  have hne : ∀ c ∈ text.reverse, decide (c ≠ colon) = true := by
    intro c hc
    rw [decide_eq_true_eq]
    rintro rfl
    exact h (List.mem_reverse.mp hc)
  rw [splitAtLastColon, if_pos (by simp), List.reverse_append, List.reverse_cons, List.append_assoc, List.singleton_append,
    List.dropWhile_append_of_pos hne, List.takeWhile_append_of_pos hne]
  simp

theorem splitAtLastColon_eq_some {t front : Text} (h : splitAtLastColon t = some (front, text)) :
    t = front ++ colon :: text ∧ colon ∉ text := by
  have hmem : colon ∈ t := by
    rw [splitAtLastColon] at h
    split at h
    · assumption
    · cases h
  obtain ⟨before, after, hsplit, hbefore⟩ := List.eq_append_cons_of_mem (List.mem_reverse.mpr hmem)
  have ht : t = after.reverse ++ colon :: before.reverse := by
    rw [← List.reverse_reverse t, hsplit]
    simp
  have hnot : colon ∉ before.reverse := fun hc => hbefore (List.mem_reverse.mp hc)
  rw [ht, splitAtLastColon_append _ hnot] at h
  obtain ⟨rfl, rfl⟩ := Prod.mk.inj (Option.some.inj h)
  exact ⟨ht, hnot⟩

theorem shift_or {a b : Nat} (hb : b < 256) : a <<< 8 ||| b = 256 * a + b := by
  rw [← Nat.shiftLeft_add_eq_or_of_lt (i := 8) hb, Nat.shiftLeft_eq, Nat.mul_comm]

theorem hextetsOf_eq {a b c d : Nat} (h : Dotted text [a, b, c, d]) :
    hextetsOf [a, b, c, d] = toHex (256 * a + b) ++ colon :: toHex (256 * c + d) ∧ 256 * a + b < 65536 ∧ 256 * c + d < 65536 := by
  obtain ⟨ha, hb, hc, hd⟩ := octets_lt h
  refine ⟨?_, by omega, by omega⟩
  rw [hextetsOf, shift_or hb, shift_or hd, List.append_assoc, List.singleton_append]

theorem expandDottedSuffix_dotted (front : Text) {a b c d : Nat} (h : Dotted text [a, b, c, d]) :
    expandDottedSuffix (front ++ colon :: text) =
      some (front ++ colon :: (toHex (256 * a + b) ++ colon :: toHex (256 * c + d))) := by
  rw [expandDottedSuffix, splitAtLastColon_append front (colon_notMem_of_dotted h)]
  simp only
  rw [if_pos (dot_mem_of_dotted h), parseIpv4_eq_some_iff.mpr h, Option.map_some, (hextetsOf_eq h).1, List.append_assoc,
    List.singleton_append]

theorem expandDottedSuffix_plain {t : Text} (h : dot ∉ t) : expandDottedSuffix t = some t := by
  rw [expandDottedSuffix]
  split
  · rename_i front text hsplit
    obtain ⟨rfl, -⟩ := splitAtLastColon_eq_some hsplit
    rw [if_neg fun hmem => h (by simp [hmem])]
  · rfl

theorem expandDottedSuffix_eq_some {t t' : Text} (h : expandDottedSuffix t = some t') :
    t' = t ∨ ∃ front text a b c d, t = front ++ colon :: text ∧ Dotted text [a, b, c, d] ∧
      t' = front ++ colon :: (toHex (256 * a + b) ++ colon :: toHex (256 * c + d)) := by
  rw [expandDottedSuffix] at h
  split at h
  · rename_i front text hsplit
    obtain ⟨rfl, -⟩ := splitAtLastColon_eq_some hsplit
    split at h
    · obtain ⟨octets, hoctets, rfl⟩ := Option.map_eq_some_iff.mp h
      have hdotted := parseIpv4_eq_some_iff.mp hoctets
      obtain ⟨a, b, c, d, rfl⟩ : ∃ a b c d, octets = [a, b, c, d] := by
        cases hdotted
        exact ⟨_, _, _, _, rfl⟩
      refine .inr ⟨front, text, a, b, c, d, rfl, hdotted, ?_⟩
      rw [(hextetsOf_eq hdotted).1, List.append_assoc, List.singleton_append]
    · exact .inl (Option.some.inj h).symm
  · exact .inl (Option.some.inj h).symm

/-! ## Eight groups -/

def readGroups (t : Text) : Option (List Nat) :=
  (expandDottedSuffix t).bind fun normalized => (expandCompression normalized).bind (·.mapM parseHextet)

theorem parseIpv6_eq (cases : CaseMapping) (value : Text) :
    parseIpv6 cases value = readGroups (cases.toLowerCase (stripIpv6Zone (stripIpv6Brackets value))) := rfl

theorem expandCompression_eq_some {t : Text} {parts : List Text} (h : expandCompression t = some parts) :
    (parts = t.splitOn colon ∧ parts.length = 8) ∨
      ∃ l r, t = l ++ [colon, colon] ++ r ∧ (splitGroups l).length + (splitGroups r).length < 8 ∧
        parts = splitGroups l ++ List.replicate (8 - (splitGroups l).length - (splitGroups r).length) [48] ++ splitGroups r := by
  rw [expandCompression] at h
  split at h
  · rename_i l r hsplit
    simp only at h
    split at h
    · cases h
    rename_i hchecks
    exact .inr ⟨l, r, splitAtFirst_eq_some hsplit, by omega, (Option.some.inj h).symm⟩
  · split at h
    · cases h
    rename_i hlength
    obtain rfl := Option.some.inj h
    exact .inl ⟨rfl, not_not.mp hlength⟩

section Hextets

variable {left right : List Text} {high low : List Nat}

theorem colon_notMem_of_forall₂ (h : List.Forall₂ Hextet left high) : ∀ g ∈ left, colon ∉ g := by
  intro g hg
  obtain ⟨n, hn⟩ := forall₂_mem h g hg
  exact colon_notMem_of_hextet hn

theorem ne_nil_of_forall₂ (h : List.Forall₂ Hextet left high) : ∀ g ∈ left, g ≠ [] := by
  intro g hg
  obtain ⟨n, hn⟩ := forall₂_mem h g hg
  exact ne_nil_of_hextet hn

theorem mapM_parseHextet (h : List.Forall₂ Hextet left high) (hlower : ∀ g ∈ left, IsLower g) :
    List.Forall₂ (fun g n => parseHextet g = some n) left high := by
  induction h with
  | nil => exact .nil
  | cons head _ ih =>
    exact .cons ((parseHextet_eq_some_iff (hlower _ List.mem_cons_self)).mpr head)
      (ih fun g hg => hlower g (List.mem_cons_of_mem _ hg))

theorem expandCompression_full (h : List.Forall₂ Hextet left high) (hlower : ∀ g ∈ left, IsLower g) (hlength : high.length = 8) :
    (expandCompression (joinGroups left)).bind (·.mapM parseHextet) = some high := by
  have hnone : splitAtFirst [colon, colon] (joinGroups left) = none :=
    splitAtFirst_eq_none.mpr fun hwithin => not_double_of_groups (colon_notMem_of_forall₂ h) (ne_nil_of_forall₂ h)
      (hwithin.trans (List.prefix_append _ _).isInfix)
  have hne : left ≠ [] := by
    rintro rfl
    rw [← h.length_eq] at hlength
    cases hlength
  rw [expandCompression, hnone]
  simp only
  rw [joinGroups, List.splitOn_intercalate colon (colon_notMem_of_forall₂ h) hne, if_neg (not_not.mpr (h.length_eq.trans hlength))]
  exact mapM_eq_some_iff.mpr (mapM_parseHextet h hlower)

theorem expandCompression_compressed (hleft : List.Forall₂ Hextet left high) (hright : List.Forall₂ Hextet right low)
    (hlowerLeft : ∀ g ∈ left, IsLower g) (hlowerRight : ∀ g ∈ right, IsLower g) (hlength : high.length + low.length < 8) :
    (expandCompression (joinGroups left ++ [colon, colon] ++ joinGroups right)).bind (·.mapM parseHextet) =
      some (high ++ List.replicate (8 - high.length - low.length) 0 ++ low) := by
  have hsplit := splitAtFirst_double (not_double_of_groups (colon_notMem_of_forall₂ hleft) (ne_nil_of_forall₂ hleft))
    (joinGroups right)
  have hnone : splitAtFirst [colon, colon] (joinGroups right) = none :=
    splitAtFirst_eq_none.mpr fun hwithin => not_double_of_groups (colon_notMem_of_forall₂ hright) (ne_nil_of_forall₂ hright)
      (hwithin.trans (List.prefix_append _ _).isInfix)
  have hzero : parseHextet [48] = some 0 := by decide
  rw [expandCompression, hsplit]
  simp only
  rw [splitGroups_joinGroups (colon_notMem_of_forall₂ hleft) (ne_nil_of_forall₂ hleft),
    splitGroups_joinGroups (colon_notMem_of_forall₂ hright) (ne_nil_of_forall₂ hright), hnone, hleft.length_eq, hright.length_eq,
    if_neg (by simp; omega)]
  refine mapM_eq_some_iff.mpr (List.rel_append (List.rel_append (mapM_parseHextet hleft hlowerLeft) ?_)
    (mapM_parseHextet hright hlowerRight))
  exact forall₂_replicate (R := fun g n => parseHextet g = some n) hzero _

end Hextets

theorem mem_intercalate {a c : Nat} : c ∈ [a].intercalate groups → c = a ∨ ∃ g ∈ groups, c ∈ g := by
  induction groups with
  | nil => exact nofun
  | cons g groups ih =>
    intro h
    cases groups with
    | nil => exact .inr ⟨g, List.mem_cons_self, by simpa using h⟩
    | cons g' groups =>
      rw [List.intercalate_cons_cons, List.mem_append, List.mem_append, List.mem_singleton] at h
      rcases h with (h | rfl) | h
      · exact .inr ⟨g, List.mem_cons_self, h⟩
      · exact .inl rfl
      · exact (ih h).imp id fun ⟨g'', hg, hc⟩ => ⟨g'', List.mem_cons_of_mem _ hg, hc⟩

theorem joinGroups_mem {g : Text} (hg : g ∈ groups) {c : Nat} (hc : c ∈ g) : c ∈ joinGroups groups := by
  induction groups with
  | nil => cases hg
  | cons g' groups ih =>
    cases groups with
    | nil =>
      obtain rfl := List.mem_singleton.mp hg
      simpa [joinGroups] using hc
    | cons g'' groups =>
      simp only [joinGroups, List.intercalate_cons_cons, List.mem_append, List.mem_singleton] at ih ⊢
      rcases List.mem_cons.mp hg with rfl | hg
      · exact .inl (.inl hc)
      · exact .inr (ih hg)

theorem joinGroups_pair (front : List Text) (high low : Text) :
    joinGroups (front ++ [high, low]) = joinGroups (front ++ [high ++ colon :: low]) := by
  have hpair : front ++ [high, low] = front ++ [high] ++ [low] := by simp
  rw [hpair, joinGroups_concat (by simp)]
  cases front with
  | nil => simp [joinGroups]
  | cons g front =>
    rw [joinGroups_concat (List.cons_ne_nil _ _), joinGroups_concat (List.cons_ne_nil _ _), List.append_assoc]
    rfl

theorem compressed_concat (left front : List Text) :
    ∃ before, ∀ text, joinGroups left ++ [colon, colon] ++ joinGroups (front ++ [text]) = before ++ colon :: text := by
  cases front with
  | nil => exact ⟨joinGroups left ++ [colon], fun text => by simp [joinGroups]⟩
  | cons g front =>
    refine ⟨joinGroups left ++ [colon, colon] ++ joinGroups (g :: front), fun text => ?_⟩
    rw [joinGroups_concat (List.cons_ne_nil _ _), List.append_assoc, List.append_assoc, List.append_assoc]

theorem dot_notMem_joinGroups (h : List.Forall₂ Hextet groups hs) : dot ∉ joinGroups groups := by
  intro hmem
  rcases mem_intercalate hmem with hcolon | ⟨g, hg, hdot⟩
  · cases hcolon
  · obtain ⟨n, hn⟩ := forall₂_mem h g hg
    exact absurd (hn.digits dot hdot) (by decide)

theorem forall₂_pair {high : List Nat} (h : List.Forall₂ Hextet front high) {a b c d : Nat}
    (htext : Dotted text [a, b, c, d]) :
    List.Forall₂ Hextet (front ++ [toHex (256 * a + b), toHex (256 * c + d)]) (high ++ [256 * a + b, 256 * c + d]) :=
  List.rel_append h (.cons (hextet_toHex (hextetsOf_eq htext).2.1) (.cons (hextet_toHex (hextetsOf_eq htext).2.2) .nil))

theorem isLower_pair (h : ∀ g ∈ front, IsLower g) (m n : Nat) : ∀ g ∈ front ++ [toHex m, toHex n], IsLower g := by
  intro g hg
  rcases List.mem_append.mp hg with hg | hg
  · exact h g hg
  · rcases List.mem_cons.mp hg with rfl | hg
    · exact isLower_toHex m
    · rw [List.mem_singleton.mp hg]
      exact isLower_toHex n

theorem readGroups_of_colons {t : Text} (hlower : IsLower t) (h : Colons t hs) : readGroups t = some hs := by
  have hgroup {groups : List Text} (hsub : joinGroups groups ⊆ t) : ∀ g ∈ groups, IsLower g :=
    fun g hg c hc => hlower c (hsub (joinGroups_mem hg hc))
  rw [readGroups]
  cases h with
  | full h length =>
    rcases groups_cases h with hall | ⟨front, text, high, a, b, c, d, rfl, rfl, hfront, htext⟩
    · rw [expandDottedSuffix_plain (dot_notMem_joinGroups hall)]
      exact expandCompression_full hall (hgroup (List.Subset.refl _)) length
    · have hne : front ≠ [] := by
        rintro rfl
        rw [List.length_append, ← hfront.length_eq] at length
        cases length
      have hlowerFront : ∀ g ∈ front, IsLower g := fun g hg =>
        hgroup (List.Subset.refl _) g (List.mem_append_left _ hg)
      rw [joinGroups_concat hne, expandDottedSuffix_dotted _ htext, Option.bind_some, ← joinGroups_concat hne, ← joinGroups_pair]
      exact expandCompression_full (forall₂_pair hfront htext) (isLower_pair hlowerFront _ _) length
  | @compressed left right high low hleft hright length =>
    have hlowerLeft : ∀ g ∈ left, IsLower g := hgroup fun c hc => by simp [hc]
    have hlowerRight : ∀ g ∈ right, IsLower g := hgroup fun c hc => by simp [hc]
    rcases groups_cases hright with hall | ⟨front, text, high', a, b, c, d, rfl, rfl, hfront, htext⟩
    · have hdot : dot ∉ joinGroups left ++ [colon, colon] ++ joinGroups right := by
        simp only [List.mem_append, not_or]
        exact ⟨⟨dot_notMem_joinGroups hleft, by decide⟩, dot_notMem_joinGroups hall⟩
      rw [expandDottedSuffix_plain hdot]
      exact expandCompression_compressed hleft hall hlowerLeft hlowerRight length
    · obtain ⟨before, hbefore⟩ := compressed_concat left front
      rw [hbefore, expandDottedSuffix_dotted _ htext, Option.bind_some, ← hbefore, ← joinGroups_pair]
      exact expandCompression_compressed hleft (forall₂_pair hfront htext) hlowerLeft
        (isLower_pair (fun g hg => hlowerRight g (List.mem_append_left _ hg)) _ _) length

theorem splitOn_concat (front : Text) (h : colon ∉ text) :
    (front ++ colon :: text).splitOn colon = front.splitOn colon ++ [text] := by
  rw [List.splitOn_append_cons_self, List.splitOn_eq_singleton h]

theorem splitOn_concat_pair (front : Text) {high low : Text} (hhigh : colon ∉ high) (hlow : colon ∉ low) :
    (front ++ colon :: (high ++ colon :: low)).splitOn colon = front.splitOn colon ++ [high, low] := by
  rw [List.splitOn_append_cons_self, splitOn_concat high hlow, List.splitOn_eq_singleton hhigh]
  rfl

theorem pair_of_splitOn {l r front : Text} {high low : Text} (hhigh : high ≠ [])
    (h : l.splitOn colon ++ [] :: r.splitOn colon = front.splitOn colon ++ [high, low]) :
    ∃ middle, splitGroups r = middle ++ [high, low] ∧ front.splitOn colon = l.splitOn colon ++ [] :: middle := by
  have hr := List.dropLast_append_getLast (List.splitOn_ne_nil colon r)
  generalize (r.splitOn colon).dropLast = before at hr
  generalize (r.splitOn colon).getLast (List.splitOn_ne_nil colon r) = last at hr
  have hlow : l.splitOn colon ++ [] :: before ++ [last] = front.splitOn colon ++ [high] ++ [low] := by
    rw [List.append_assoc, List.cons_append, hr, h, List.append_assoc]
    rfl
  obtain ⟨hbefore, hlast⟩ := List.append_inj' hlow rfl
  obtain rfl := List.singleton_inj.mp hlast
  -- what stands before the last group ends in another one, which is not empty
  rcases List.eq_nil_or_concat before with rfl | ⟨middle, last', rfl⟩
  · exact absurd (List.singleton_inj.mp (List.append_inj' hbefore rfl).2).symm hhigh
  · rw [List.concat_eq_append] at hr hbefore
    rw [← List.cons_append, ← List.append_assoc] at hbefore
    obtain ⟨hfront, hlast'⟩ := List.append_inj' hbefore rfl
    obtain rfl := List.singleton_inj.mp hlast'
    have hne : r ≠ [] := by
      rintro rfl
      have hlength := congrArg List.length hr
      simp at hlength
    rw [splitGroups, if_neg hne, ← hr]
    exact ⟨middle, by simp, hfront.symm⟩

theorem forall₂_hextet (h : List.Forall₂ (fun g n => parseHextet g = some n) groups hs) :
    List.Forall₂ Hextet groups hs :=
  h.imp fun _ _ => hextet_of_parseHextet

theorem forall₂_of_pair {a b c d : Nat}
    (h : List.Forall₂ (fun g n => parseHextet g = some n) (front ++ [toHex (256 * a + b), toHex (256 * c + d)]) hs) :
    ∃ high, hs = high ++ [256 * a + b, 256 * c + d] ∧ List.Forall₂ Hextet front high := by
  obtain ⟨high, pair, rfl, hfront, hpair⟩ := forall₂_append_inv h
  simp only [List.forall₂_cons_left_iff, List.forall₂_nil_left_iff] at hpair
  obtain ⟨m, _, hm, ⟨n, _, hn, rfl, rfl⟩, rfl⟩ := hpair
  have hvalue {k m : Nat} (h : parseHextet (toHex k) = some m) : m = k :=
    (hextet_of_parseHextet h).value.symm.trans (parseHex_toHex k)
  rw [hvalue hm, hvalue hn]
  exact ⟨high, rfl, forall₂_hextet hfront⟩

theorem colons_of_readGroups {t : Text} (h : readGroups t = some hs) : Colons t hs := by
  obtain ⟨normalized, hnormalized, h⟩ := Option.bind_eq_some_iff.mp h
  obtain ⟨parts, hparts, h⟩ := Option.bind_eq_some_iff.mp h
  have hall := mapM_eq_some_iff.mp h
  have hzero {n : Nat} {zeros : List Nat} (hzeros : List.Forall₂ (fun g n => parseHextet g = some n) (List.replicate n [48]) zeros) :
      zeros = List.replicate n 0 := by
    have hgroup : parseHextet [48] = some 0 := by decide
    have hread := mapM_eq_some_iff.mpr (forall₂_replicate (R := fun g n => parseHextet g = some n) hgroup n)
    exact Option.some.inj ((mapM_eq_some_iff.mpr hzeros).symm.trans hread)
  rcases expandDottedSuffix_eq_some hnormalized with rfl | ⟨front, text, a, b, c, d, rfl, htext, rfl⟩
  · rcases expandCompression_eq_some hparts with ⟨rfl, hlength⟩ | ⟨l, r, rfl, hlength, rfl⟩
    · have hfull := Colons.full (groups_of_forall₂ (forall₂_hextet hall)) (hall.length_eq ▸ hlength)
      rwa [joinGroups, List.intercalate_splitOn] at hfull
    · obtain ⟨highZeros, low, rfl, hleft, hright⟩ := forall₂_append_inv hall
      obtain ⟨high, zeros, rfl, hleft, hzeros⟩ := forall₂_append_inv hleft
      rw [hzero hzeros, hleft.length_eq, hright.length_eq]
      have hcompressed := Colons.compressed (forall₂_hextet hleft) (groups_of_forall₂ (forall₂_hextet hright))
        (by rw [← hleft.length_eq, ← hright.length_eq]; exact hlength)
      rwa [joinGroups_splitGroups, joinGroups_splitGroups] at hcompressed
  · have hhigh := hextet_toHex (hextetsOf_eq htext).2.1
    have hlow := hextet_toHex (hextetsOf_eq htext).2.2
    have hpair := splitOn_concat_pair front (colon_notMem_of_hextet hhigh) (colon_notMem_of_hextet hlow)
    have htext' := splitOn_concat front (colon_notMem_of_dotted htext)
    rcases expandCompression_eq_some hparts with ⟨rfl, hlength⟩ | ⟨l, r, hsplit, hlength, rfl⟩
    · rw [hpair] at hall hlength
      obtain ⟨high, rfl, hfront⟩ := forall₂_of_pair hall
      have hfull := Colons.full (groups_concat hfront htext) (hall.length_eq ▸ hlength)
      rwa [← htext', joinGroups, List.intercalate_splitOn] at hfull
    · have hgroups := congrArg (List.splitOn colon) hsplit
      rw [hpair, splitOn_double] at hgroups
      obtain ⟨middle, hr, hfront⟩ := pair_of_splitOn (ne_nil_of_hextet hhigh) hgroups.symm
      rw [hr] at hall hlength
      obtain ⟨highZeros, low, rfl, hleft, hright⟩ := forall₂_append_inv hall
      obtain ⟨high, zeros, rfl, hleft, hzeros⟩ := forall₂_append_inv hleft
      obtain ⟨low', rfl, hmiddle⟩ := forall₂_of_pair hright
      rw [hzero hzeros, hleft.length_eq, hright.length_eq]
      have hcompressed := Colons.compressed (forall₂_hextet hleft) (groups_concat hmiddle htext)
        (by rw [← hleft.length_eq, ← hright.length_eq]; exact hlength)
      have hne : middle ++ [text] ≠ [] := by simp
      have hcolon : ∀ g ∈ middle ++ [text], colon ∉ g := by
        intro g hg
        rcases List.mem_append.mp hg with hg | hg
        · exact notMem_of_mem_splitOn (t := front) (hfront ▸ by simp [hg])
        · exact List.mem_singleton.mp hg ▸ colon_notMem_of_dotted htext
      -- both texts have the same groups
      have hsame : joinGroups (splitGroups l) ++ [colon, colon] ++ joinGroups (middle ++ [text]) = front ++ colon :: text := by
        have hjoin (t : Text) : [colon].intercalate (t.splitOn colon) = t := List.intercalate_splitOn colon
        rw [joinGroups_splitGroups, ← hjoin (l ++ _ ++ _), ← hjoin (front ++ colon :: text), splitOn_double, htext', hfront, joinGroups,
          List.splitOn_intercalate colon hcolon hne]
        simp
      rwa [hsame] at hcompressed

end Veryfront.Security.Egress
