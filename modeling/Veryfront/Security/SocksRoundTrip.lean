import Veryfront.Cache.SegmentRoundTrip
import Veryfront.Security.AddressLiterals
import Veryfront.Security.SocksTarget

/-!
# Targets come back

The octets that are sent for a host and a port are read back, in pieces of any size, as the port and a host that stands
for the same address or is the same name.
-/

namespace Veryfront.Security.Egress

open Lib Lib.Cidr Lib.Delivery Network
open Cache (textEncode textDecode)

variable (cases : CaseMapping)

/-! ## What a host is -/

def literalAddress (host : Text) : Option Address :=
  match parseIpv4 (stripIpv6Brackets host) with
  | some octets => some (.v4 (value 256 octets))
  | none => (parseIpv6 cases host).map fun hextets => .v6 (value 65536 hextets)

def IsLiteral (host : Text) : Prop := ∃ address, literalAddress cases host = some address

/-- No surrogate stands alone, and the octets can be counted in one. -/
structure IsName (host : Text) : Prop where
  noAddress : literalAddress cases host = none
  wellFormed : WellFormed host
  length : 1 ≤ (textEncode host).length ∧ (textEncode host).length ≤ 255

def stripMark (text : Text) : Text := if text.head? = some 0xFEFF then text.tail else text

structure IsPlainName (host : Text) : Prop extends IsName cases host where
  noBrackets : stripIpv6Brackets host = host
  noHiddenAddress : literalAddress cases (stripMark host) = none

/-- What is sent comes back, and what follows it is left. -/
def RoundTrips (hostname : Text) (port : Nat) : Prop :=
  ∃ request, encodeSocksTarget cases hostname port = .ok request ∧
    ∀ pieces rest, pieces.flatten = request ++ rest →
      ∃ target pieces', readSocksTarget pieces = .ok (target, pieces') ∧ pieces'.flatten = rest ∧ target.port = port ∧
        hostsMatch cases target.hostname hostname = true

variable {cases}

/-! ## Addresses that are read -/

variable {text : Text}

theorem exists_octets {octets : List Nat} (h : Dotted text octets) :
    ∃ a b c d, octets = [a, b, c, d] ∧ a < 256 ∧ b < 256 ∧ c < 256 ∧ d < 256 := by
  cases h with
  | intro hp hq hr hs => exact ⟨_, _, _, _, rfl, by have := hp.le; omega, by have := hq.le; omega, by have := hr.le; omega,
      by have := hs.le; omega⟩

theorem everyValue_iff {left right : List Nat} (h : left.length = right.length) : everyValue left right = true ↔ left = right := by
  rw [everyValue, List.isPrefixOf_iff_prefix]
  exact ⟨fun hprefix => hprefix.eq_of_length h, fun heq => heq ▸ List.prefix_rfl⟩

theorem parseIpv4_length {octets : List Nat} (h : parseIpv4 text = some octets) : octets.length = 4 := by
  obtain ⟨a, b, c, d, rfl, -⟩ := exists_octets (parseIpv4_eq_some_iff.mp h)
  rfl

variable {hextets : List Nat}

theorem parseIpv6_colons (h : parseIpv6 cases text = some hextets) :
    Colons (cases.toLowerCase (stripIpv6Zone (stripIpv6Brackets text))) hextets :=
  colons_of_readGroups h

theorem stripIpv6Brackets_of_units (h : ∀ c ∈ text, CoreUnit c) : stripIpv6Brackets text = text := by
  rcases stripIpv6Brackets_cases text with heq | heq
  · exact heq
  · exact absurd (h 91 (heq ▸ List.mem_cons_self)) (by decide)

theorem not_colons_of_bracket (rest : Text) (hextets : List Nat) :
    ¬ Colons (cases.toLowerCase (stripIpv6Zone (91 :: rest))) hextets := by
  intro hcolons
  have hzone : stripIpv6Zone (91 :: rest) = [91] ++ stripIpv6Zone rest ++ [] := by
    rw [stripIpv6Zone, List.takeWhile_cons_of_pos (by decide), List.append_nil]
    rfl
  obtain ⟨middle, hlower⟩ := cases.outer [91] (stripIpv6Zone rest) [] (List.forall_mem_singleton.mpr (.inl (by decide)))
  rw [hzone, hlower] at hcolons
  exact absurd ((colons_units hcolons).2 91 (by simp [lowerUnit])) (by decide)

theorem parseIpv6_stripIpv6Brackets (h : parseIpv6 cases text = some hextets) :
    parseIpv6 cases (stripIpv6Brackets text) = some hextets := by
  rcases stripIpv6Brackets_cases (stripIpv6Brackets text) with heq | heq
  · rwa [parseIpv6_eq, heq]
  · have hcolons := parseIpv6_colons h
    rw [heq] at hcolons
    exact absurd hcolons (not_colons_of_bracket _ _)

theorem literalAddress_of_hostsMatch {left right : Text} (h : hostsMatch cases left right = true) :
    literalAddress cases left = literalAddress cases right := by
  rw [hostsMatch] at h
  rw [literalAddress, literalAddress]
  cases hleft : parseIpv4 (stripIpv6Brackets left) with
  | some leftV4 =>
    cases hright : parseIpv4 (stripIpv6Brackets right) with
    | some rightV4 =>
      simp only [hleft, hright] at h ⊢
      rw [(everyValue_iff ((parseIpv4_length hleft).trans (parseIpv4_length hright).symm)).mp h]
    | none =>
      simp only [hleft, hright, Bool.false_eq_true] at h
  | none =>
    cases hright : parseIpv4 (stripIpv6Brackets right) with
    | some rightV4 =>
      simp only [hleft, hright, Bool.false_eq_true] at h
    | none =>
      simp only [hleft, hright] at h ⊢
      cases hleft6 : parseIpv6 cases left with
      | some leftV6 =>
        cases hright6 : parseIpv6 cases right with
        | some rightV6 =>
          simp only [hleft6, hright6] at h
          rw [(everyValue_iff ((colons_bounds (parseIpv6_colons hleft6)).1.trans (colons_bounds (parseIpv6_colons hright6)).1.symm)).mp h]
        | none => simp only [hleft6, hright6, Bool.false_eq_true] at h
      | none =>
        cases hright6 : parseIpv6 cases right with
        | some rightV6 => simp only [hleft6, hright6, Bool.false_eq_true] at h
        | none => rfl

theorem literalAddress_eq {host : Text} {a b : Address} (ha : Denotes host a) (hb : literalAddress cases host = some b) : b = a := by
  rw [literalAddress] at hb
  cases hoctets : parseIpv4 (stripIpv6Brackets host) with
  | some octets =>
    simp only [hoctets, Option.some.injEq] at hb
    subst hb
    exact denotes_unique (denotes_of_spells (.dotted (parseIpv4_eq_some_iff.mp hoctets))) (denotes_stripIpv6Brackets ha)
  | none =>
    simp only [hoctets] at hb
    obtain ⟨hextets, hread, rfl⟩ := Option.map_eq_some_iff.mp hb
    exact denotes_unique (denotes_of_spells (.colons (parseIpv6_colons hread)))
      (denotes_toLowerCase cases (denotes_stripIpv6Zone (denotes_stripIpv6Brackets ha)))

/-! ## Texts of addresses -/

theorem octet_decimal {n : Nat} (h : n < 256) : Octet (decimal n) n := by
  refine ⟨⟨List.length_pos_iff.mpr (isDecimal_decimal n).1, ?_⟩, fun c hc => ?_, digitsValue_decimal n, by omega⟩
  · rw [decimal, List.length_map]
    exact (Nat.length_toDigits_le_iff (by decide) (by decide)).mpr (by omega)
  · have hdigit := (isDecimal_decimal n).2 c hc
    simp [isDigit, hdigit]

theorem shift_mask {n : Nat} (h : n < 65536) : n >>> 8 < 256 ∧ n &&& 0xff < 256 ∧ n >>> 8 <<< 8 ||| n &&& 0xff = n := by
  have hmask : n &&& 0xff = n % 256 := Nat.and_two_pow_sub_one_eq_mod n 8
  have hshift : n >>> 8 = n / 256 := Nat.shiftRight_eq_div_pow n 8
  rw [hmask, hshift, shift_or (Nat.mod_lt _ (by decide))]
  omega

theorem hextetTexts_octets (h : ∀ hextet ∈ hextets, hextet < 65536) :
    hextetTexts (hextets.flatMap fun hextet => [hextet >>> 8, hextet &&& 0xff]) = hextets.map toHex := by
  induction hextets with
  | nil => rfl
  | cons hextet hextets ih =>
    rw [List.flatMap_cons, List.cons_append, List.cons_append, List.nil_append, hextetTexts,
      (shift_mask (h hextet List.mem_cons_self)).2.2, ih fun g hg => h g (List.mem_cons_of_mem _ hg), List.map_cons]

theorem groups_toHex (h : ∀ hextet ∈ hextets, hextet < 65536) : Groups (hextets.map toHex) hextets := by
  induction hextets with
  | nil => exact .nil
  | cons hextet hextets ih =>
    exact .cons (hextet_toHex (h hextet List.mem_cons_self)) (ih fun g hg => h g (List.mem_cons_of_mem _ hg))

theorem parseIpv6_of_colons (hlower : IsLower text) (h : Colons text hextets) :
    parseIpv6 cases text = some hextets := by
  have hunits := (colons_units h).2
  have hzone : stripIpv6Zone text = text := List.takeWhile_eq_self_iff.mpr fun c hc => decide_eq_true fun heq => by
    subst heq
    exact absurd (hunits percent hc) (by decide)
  have hcase : cases.toLowerCase text = text :=
    (cases.plain text fun c hc => isPlain_of_coreUnit (hunits c hc)).trans ((List.map_congr_left hlower).trans (List.map_id _))
  rw [parseIpv6_eq, stripIpv6Brackets_of_units hunits, hzone, hcase]
  exact readGroups_of_colons hlower h

theorem parseIpv4_of_colons (h : Colons text hextets) : parseIpv4 text = none := by
  cases hoctets : parseIpv4 text with
  | none => rfl
  | some octets => exact absurd (colons_units h).1 (colon_notMem_of_dotted (parseIpv4_eq_some_iff.mp hoctets))

theorem isLower_joinGroups_toHex (hextets : List Nat) : IsLower (joinGroups (hextets.map toHex)) := by
  intro c hc
  rcases mem_intercalate hc with rfl | ⟨group, hgroup, hc⟩
  · rfl
  · obtain ⟨hextet, -, rfl⟩ := List.mem_map.mp hgroup
    exact isLower_toHex hextet c hc

/-! ## Names -/

theorem exists_points (h : WellFormed text) (hunits : ∀ unit ∈ text, unit < 0x10000) :
    ∃ points : List Nat, text = points.flatMap unitsOf ∧ ∀ p ∈ points, Scalar p :=
  ⟨codePoints text, (flatMap_unitsOf_codePoints hunits).symm, fun p hp =>
    ⟨codePoints_lt hunits p hp, Bool.eq_false_iff.mp (h p hp)⟩⟩

theorem head?_flatMap_unitsOf {points : List Nat} (hpoints : ∀ p ∈ points, Scalar p)
    (h : (points.flatMap unitsOf).head? = some 0xFEFF) : points.head? = some 0xFEFF := by
  cases points with
  | nil => cases h
  | cons point points =>
    have hlt := (hpoints point List.mem_cons_self).lt
    rw [List.flatMap_cons, unitsOf] at h
    split at h
    · exact h
    · simp only [List.cons_append, List.head?_cons, Option.some.injEq] at h
      omega

theorem textDecode_name (h : WellFormed text) (hunits : ∀ unit ∈ text, unit < 0x10000) :
    textDecode (textEncode text) = some (stripMark text) := by
  obtain ⟨points, rfl, hpoints⟩ := exists_points h hunits
  rw [stripMark]
  split
  · rename_i hmark
    obtain ⟨rest, rfl⟩ := List.head?_eq_some_iff.mp (head?_flatMap_unitsOf hpoints hmark)
    rw [Cache.textDecode_textEncode_mark fun p hp => hpoints p (List.mem_cons_of_mem _ hp)]
    rfl
  · rename_i hmark
    refine Cache.textDecode_textEncode hpoints fun hhead => hmark ?_
    obtain ⟨rest, rfl⟩ := List.head?_eq_some_iff.mp hhead
    rfl

theorem trim_stripMark (text : Text) : (stripMark text).trim = text.trim := by
  rw [stripMark]
  split
  · rename_i hmark
    obtain ⟨rest, rfl⟩ := List.head?_eq_some_iff.mp hmark
    have hspace : Text.trimStart (0xFEFF :: rest) = Text.trimStart rest := List.dropWhile_cons_of_pos (by decide)
    rw [Text.trim, Text.trim, hspace, List.tail_cons]
  · rfl

theorem parse_of_literalAddress_eq_none {host : Text} (h : literalAddress cases host = none) :
    parseIpv4 (stripIpv6Brackets host) = none ∧ parseIpv6 cases host = none := by
  rw [literalAddress] at h
  cases hoctets : parseIpv4 (stripIpv6Brackets host) with
  | some octets => simp only [hoctets, reduceCtorEq] at h
  | none =>
    simp only [hoctets] at h
    exact ⟨rfl, Option.map_eq_none_iff.mp h⟩

theorem hostsMatch_of_names {left right : Text} (hleft : literalAddress cases left = none) (hright : literalAddress cases right = none)
    (h : left.trim = right.trim) : hostsMatch cases left right = true := by
  obtain ⟨hleft4, hleft6⟩ := parse_of_literalAddress_eq_none hleft
  obtain ⟨hright4, hright6⟩ := parse_of_literalAddress_eq_none hright
  simp only [hostsMatch, hleft4, hright4, hleft6, hright6, normalizeName, h, decide_true]

/-! ## Requests that are read -/

variable {hostname : Text}

theorem consumes_readSocksTarget {type port : Nat} {address : List Nat} (hport : port < 65536)
    (h : Consumes (readSocksAddress type) address hostname) :
    Consumes readSocksTarget ([0x05, 0x01, 0x00, type] ++ (address ++ (portBytes port ++ []))) ⟨hostname, port⟩ := by
  refine Consumes.bind (consumes_readUpTo _ [0x05, 0x01, 0x00, type]) ?_
  rw [if_neg (by simp)]
  refine Consumes.bind h (Consumes.bind (consumes_readUpTo _ (portBytes port)) ?_)
  have hread : (portBytes port).getD 0 0 <<< 8 ||| (portBytes port).getD 1 0 = port := (shift_mask hport).2.2
  rw [hread]
  exact Consumes.pure _

theorem roundTrips_of_address {port type : Nat} {address : List Nat} {target : Text} (hport : port < 65536)
    (hencode : encodeSocksAddress cases (stripIpv6Brackets hostname) = .ok (type, address))
    (hread : Consumes (readSocksAddress type) address target) (hmatch : hostsMatch cases target hostname = true) :
    RoundTrips cases hostname port := by
  refine ⟨[0x05, 0x01, 0x00, type] ++ address ++ portBytes port, by rw [encodeSocksTarget, hencode]; rfl, fun pieces rest h => ?_⟩
  obtain ⟨pieces', hrun, hrest⟩ := consumes_readSocksTarget hport hread pieces rest (by
    simp only [h, List.append_nil, List.append_assoc])
  exact ⟨_, pieces', hrun, hrest, rfl, hmatch⟩

theorem roundTrips_v4 {port : Nat} {octets : List Nat} (hport : port < 65536)
    (h : parseIpv4 (stripIpv6Brackets hostname) = some octets) : RoundTrips cases hostname port := by
  obtain ⟨a, b, c, d, rfl, ha, hb, hc, hd⟩ := exists_octets (parseIpv4_eq_some_iff.mp h)
  have hdotted : Dotted ([dot].intercalate ([a, b, c, d].map decimal)) [a, b, c, d] :=
    .intro (octet_decimal ha) (octet_decimal hb) (octet_decimal hc) (octet_decimal hd)
  have hread : Consumes (readSocksAddress 0x01) [a, b, c, d] ([dot].intercalate ([a, b, c, d].map decimal)) :=
    Consumes.bind (consumes_readUpTo _ [a, b, c, d]) (Consumes.pure _)
  refine roundTrips_of_address hport (by rw [encodeSocksAddress, h]) hread ?_
  rw [hostsMatch, stripIpv6Brackets_of_units (dotted_units hdotted).2, parseIpv4_eq_some_iff.mpr hdotted, h]
  exact (everyValue_iff rfl).mpr rfl

theorem roundTrips_v6 {port : Nat} (hport : port < 65536)
    (h4 : parseIpv4 (stripIpv6Brackets hostname) = none) (h : parseIpv6 cases hostname = some hextets) :
    RoundTrips cases hostname port := by
  obtain ⟨hlength, hlt⟩ := colons_bounds (parseIpv6_colons h)
  have hcolons : Colons (joinGroups (hextets.map toHex)) hextets := .full (groups_toHex hlt) hlength
  have hread : Consumes (readSocksAddress 0x04) (hextets.flatMap fun hextet => [hextet >>> 8, hextet &&& 0xff])
      (joinGroups (hextets.map toHex)) := by
    have hcount : (hextets.flatMap fun hextet => [hextet >>> 8, hextet &&& 0xff]).length = 16 := by
      simp [List.length_flatMap, hlength]
    have hoctets := consumes_readUpTo (SocksError.error "SOCKS proxy connection closed during handshake")
      (hextets.flatMap fun hextet => [hextet >>> 8, hextet &&& 0xff])
    rw [hcount] at hoctets
    rw [← List.append_nil (hextets.flatMap _), joinGroups, ← hextetTexts_octets hlt]
    exact Consumes.bind hoctets (Consumes.pure _)
  refine roundTrips_of_address hport (by rw [encodeSocksAddress, h4, parseIpv6_stripIpv6Brackets h]) hread ?_
  have hlower := isLower_joinGroups_toHex hextets
  rw [hostsMatch, stripIpv6Brackets_of_units (colons_units hcolons).2, parseIpv4_of_colons hcolons, h4,
    parseIpv6_of_colons hlower hcolons, h]
  exact (everyValue_iff rfl).mpr rfl

theorem consumes_name {bytes : List Nat} (hpos : 0 < bytes.length) (h : textDecode bytes = some hostname) :
    Consumes (readSocksAddress 0x03) (bytes.length :: bytes) hostname := by
  have hdata : bytes.length :: bytes = [bytes.length] ++ (bytes ++ []) := by rw [List.append_nil, List.singleton_append]
  rw [hdata]
  refine Consumes.bind (consumes_readUpTo _ [bytes.length]) ?_
  rw [List.getD_cons_zero, if_neg (Nat.ne_of_gt hpos)]
  refine Consumes.bind (consumes_readUpTo _ bytes) ?_
  rw [decodeHostname, h]
  exact Consumes.pure _

theorem roundTrips_name {port : Nat} (hport : port < 65536) (hunits : ∀ unit ∈ hostname, unit < 0x10000)
    (h : IsPlainName cases hostname) : RoundTrips cases hostname port := by
  obtain ⟨h4, h6⟩ := parse_of_literalAddress_eq_none h.noAddress
  obtain ⟨hpos, hle⟩ := h.length
  rw [h.noBrackets] at h4
  have hread := consumes_name hpos (textDecode_name h.wellFormed hunits)
  refine roundTrips_of_address hport ?_ hread (hostsMatch_of_names h.noHiddenAddress h.noAddress (trim_stripMark hostname))
  rw [h.noBrackets, encodeSocksAddress, h4, h6]
  exact if_neg (by omega)

/-! ## Every host -/

/-- The texts `[a]` and a byte order mark before `1.2.3.4` are names, and neither comes back. -/
theorem names_lost :
    (IsName latinCases (.ofUnits [91, 97, 93]) ∧ ¬ RoundTrips latinCases (.ofUnits [91, 97, 93]) 443) ∧
      IsName latinCases (.ofUnits [0xFEFF, 49, 46, 50, 46, 51, 46, 52]) ∧
        ¬ RoundTrips latinCases (.ofUnits [0xFEFF, 49, 46, 50, 46, 51, 46, 52]) 443 := by
  refine ⟨⟨⟨by decide, by unfold WellFormed; decide, by decide⟩, ?_⟩, ⟨by decide, by unfold WellFormed; decide, by decide⟩, ?_⟩
  · rintro ⟨request, hrequest, hread⟩
    obtain rfl : [5, 1, 0, 3, 1, 97, 1, 187] = request := Except.ok.inj hrequest
    obtain ⟨target, pieces', hrun, -, -, hmatch⟩ := hread [[5, 1, 0, 3, 1, 97, 1, 187]] [] rfl
    obtain rfl : ⟨[97], 443⟩ = target := (Prod.mk.inj (Except.ok.inj hrun)).1
    exact absurd hmatch (by decide)
  · rintro ⟨request, hrequest, hread⟩
    obtain rfl : [5, 1, 0, 3, 10, 0xEF, 0xBB, 0xBF, 49, 46, 50, 46, 51, 46, 52, 1, 187] = request := Except.ok.inj hrequest
    obtain ⟨target, pieces', hrun, -, -, hmatch⟩ :=
      hread [[5, 1, 0, 3, 10, 0xEF, 0xBB, 0xBF, 49, 46, 50, 46, 51, 46, 52, 1, 187]] [] rfl
    obtain rfl : ⟨[49, 46, 50, 46, 51, 46, 52], 443⟩ = target := (Prod.mk.inj (Except.ok.inj hrun)).1
    exact absurd hmatch (by decide)

/-- Addresses and plain names come back, and what matches is the same address or no address on either side. -/
theorem socksTarget_roundTrips (cases : CaseMapping) :
    (∀ (hostname : List UInt16) (port : UInt16),
      IsLiteral cases (.ofUnits hostname) ∨ IsPlainName cases (.ofUnits hostname) →
        RoundTrips cases (.ofUnits hostname) port.toNat) ∧
    (∀ left right, hostsMatch cases left right = true → literalAddress cases left = literalAddress cases right) ∧
    ∀ host a b, Denotes host a → literalAddress cases host = some b → b = a := by
  refine ⟨fun hostname port h => ?_, fun _ _ => literalAddress_of_hostsMatch, fun _ _ _ => literalAddress_eq⟩
  have hport : port.toNat < 65536 := port.toNat_lt
  rcases h with ⟨address, haddress⟩ | hname
  · rw [literalAddress] at haddress
    cases h4 : parseIpv4 (stripIpv6Brackets (.ofUnits hostname)) with
    | some octets => exact roundTrips_v4 hport h4
    | none =>
      simp only [h4] at haddress
      obtain ⟨hextets, h6, -⟩ := Option.map_eq_some_iff.mp haddress
      exact roundTrips_v6 hport h4 h6
  · exact roundTrips_name hport Text.ofUnits_lt hname

/-- In brackets, with a zone. -/
theorem socksTarget_roundTrips_zone : RoundTrips latinCases (.ofUnits [91, 58, 58, 49, 37, 48, 93]) 443 :=
  (socksTarget_roundTrips latinCases).1 [91, 58, 58, 49, 37, 48, 93] 443 (.inl ⟨.v6 1, by decide⟩)

end Veryfront.Security.Egress
