import Veryfront.Security.AuthBase64Url

/-!
# Envelopes come back

A list of bytes has one text, and only that text is read back as the list. So an envelope that is accepted is the one
that sealing the same vector and ciphertext gives, unit by unit.
-/

namespace Veryfront.Security.Auth

open Lib Lib.Bits

abbrev Sextet := BitVec 6

def sextetChar (sextet : Sextet) : Nat := base64UrlAlphabet.getD sextet.toNat 0

/-- The bits of the sextets are those of the bytes, with the zeros behind them that fill the last sextet. -/
def Spells (sextets : List Sextet) (bytes : List Byte) : Prop :=
  ∃ padding < 6, sextets.flatMap wordBits = bytes.flatMap wordBits ++ List.replicate padding false

/-! ## The alphabet -/

theorem mask_byte : (255 : Register) = BitVec.ofNat 32 (2 ^ 8 - 1) := rfl

theorem alphabetAt_mask (x : Register) : alphabetAt (x &&& 63) = sextetChar (x.setWidth 6) := by
  rw [alphabetAt, sextetChar, BitVec.toNat_and, BitVec.toNat_setWidth]
  congr 1
  exact Nat.and_two_pow_sub_one_eq_mod x.toNat 6

theorem base64UrlAlphabet_eq :
    base64UrlAlphabet = List.range' 65 26 ++ List.range' 97 26 ++ List.range' 48 10 ++ [45, 95] := by
  rw [base64UrlAlphabet, Text.of_ofList]
  decide

theorem idxOf?_getD : ∀ index < 64, base64UrlAlphabet.idxOf? (base64UrlAlphabet.getD index 0) = some index := by
  rw [base64UrlAlphabet_eq]
  decide

theorem idxOf?_sextetChar (sextet : Sextet) : base64UrlAlphabet.idxOf? (sextetChar sextet) = some sextet.toNat :=
  idxOf?_getD sextet.toNat sextet.isLt

theorem sextetChar_injective : Function.Injective sextetChar := by
  intro a b h
  have hindex := idxOf?_sextetChar a
  rw [h, idxOf?_sextetChar b] at hindex
  exact (BitVec.eq_of_toNat_eq (Option.some.inj hindex)).symm

set_option maxRecDepth 2000 in
theorem isBase64UrlUnit_getD : ∀ index < 64, isBase64UrlUnit (base64UrlAlphabet.getD index 0) = true := by
  rw [base64UrlAlphabet_eq]
  decide

set_option maxRecDepth 2000 in
theorem mem_alphabet : ∀ c < 123, isBase64UrlUnit c = true → c ∈ base64UrlAlphabet := by
  rw [base64UrlAlphabet_eq]
  decide

theorem exists_sextet {c : Nat} (h : isBase64UrlUnit c = true) : ∃ sextet, sextetChar sextet = c := by
  have hlt : c < 123 := by
    simp only [isBase64UrlUnit, Bool.or_eq_true, Bool.and_eq_true, decide_eq_true_eq] at h
    omega
  obtain ⟨index, hindex, rfl⟩ := List.getElem_of_mem (mem_alphabet c hlt h)
  refine ⟨BitVec.ofNat 6 index, ?_⟩
  rw [sextetChar, BitVec.toNat_ofNat, Nat.mod_eq_of_lt (show index < 2 ^ 6 from hindex), List.getD_eq_getElem?_getD,
    List.getElem?_eq_getElem hindex, Option.getD_some]

variable {value : Text}

theorem base64UrlPattern_iff : base64UrlPattern value = true ↔ ∃ sextets : List Sextet, sextets.map sextetChar = value := by
  rw [base64UrlPattern, List.all_eq_true]
  constructor
  · intro h
    induction value with
    | nil => exact ⟨[], rfl⟩
    | cons c value ih =>
      obtain ⟨sextet, rfl⟩ := exists_sextet (h c List.mem_cons_self)
      obtain ⟨sextets, rfl⟩ := ih fun c hc => h c (List.mem_cons_of_mem _ hc)
      exact ⟨sextet :: sextets, rfl⟩
  · rintro ⟨sextets, rfl⟩ c hc
    obtain ⟨sextet, -, rfl⟩ := List.mem_map.mp hc
    exact isBase64UrlUnit_getD sextet.toNat sextet.isLt

/-! ## One text for each list of bytes -/

variable {sextets : List Sextet} {bytes : List Byte}

theorem Spells.length (h : Spells sextets bytes) :
    ∃ padding < 6, 6 * sextets.length = 8 * bytes.length + padding := by
  obtain ⟨padding, hpadding, hbits⟩ := h
  have hlength := congrArg List.length hbits
  rw [List.length_append, length_flatMap_wordBits, length_flatMap_wordBits, List.length_replicate] at hlength
  exact ⟨padding, hpadding, hlength⟩

theorem Spells.sextets_unique {sextets' : List Sextet} (h : Spells sextets bytes)
    (h' : Spells sextets' bytes) : sextets = sextets' := by
  have hlength : sextets.length = sextets'.length := by
    obtain ⟨padding, _, _⟩ := h.length
    obtain ⟨padding', _, _⟩ := h'.length
    omega
  obtain ⟨padding, hpadding, hbits⟩ := h
  obtain ⟨padding', hpadding', hbits'⟩ := h'
  have hsame : padding = padding' := by
    have hone := congrArg List.length hbits
    have htwo := congrArg List.length hbits'
    simp only [List.length_append, length_flatMap_wordBits, List.length_replicate] at hone htwo
    omega
  refine (flatMap_wordBits_inj (s := []) (t := []) hlength ?_).1
  rw [List.append_nil, List.append_nil, hbits, hbits', hsame]

/-! ## Encoding -/

theorem writeSextets_spec (buffer : Register) {bits : Nat} (output : Text) (h : bits ≤ 32) :
    ∃ sextets : List Sextet, writeSextets buffer bits output = ⟨output ++ sextets.map sextetChar, buffer, bits % 6⟩ ∧
      lowBits bits buffer = sextets.flatMap wordBits ++ lowBits (bits % 6) buffer := by
  induction bits, output using writeSextets.induct buffer with
  | case1 bits output ih =>
    obtain ⟨sextets, heq, hbits⟩ := ih (by omega)
    have hfirst : wordBits ((buffer.sshiftRight bits).setWidth 6) = lowBits 6 (buffer.sshiftRight bits) :=
      lowBits_setWidth _ (Nat.le_refl 6)
    have hmod : (bits + 6) % 6 = bits % 6 := Nat.add_mod_right bits 6
    refine ⟨(buffer.sshiftRight bits).setWidth 6 :: sextets, ?_, ?_⟩
    · rw [writeSextets, heq, alphabetAt_mask, hmod, List.map_cons, List.append_assoc, List.singleton_append]
    · rw [hmod, List.flatMap_cons, hfirst, List.append_assoc, ← hbits]
      exact (congrArg (lowBits · buffer) (Nat.add_comm bits 6)).trans (lowBits_add (by omega))
  | case2 bits output hsmall =>
    have hlt : bits < 6 := by
      by_contra hge
      exact hsmall (bits - 6) (by omega)
    refine ⟨[], ?_, ?_⟩
    · rw [writeSextets, List.map_nil, List.append_nil, Nat.mod_eq_of_lt hlt]
      exact hsmall
    · rw [List.flatMap_nil, List.nil_append, Nat.mod_eq_of_lt hlt]

def Encoder.Holds (e : Encoder) (bytes : List Byte) : Prop :=
  ∃ sextets : List Sextet, e.output = sextets.map sextetChar ∧
    sextets.flatMap wordBits ++ lowBits e.bits e.buffer = bytes.flatMap wordBits ∧ e.bits < 6

theorem Encoder.Holds.push {e : Encoder} (h : e.Holds bytes) (byte : Byte) :
    (e.push byte).Holds (bytes ++ [byte]) := by
  obtain ⟨sextets, houtput, hbits, hlt⟩ := h
  obtain ⟨more, heq, hmore⟩ := writeSextets_spec (e.buffer <<< 8 ||| byte.setWidth 32) e.output
    (show e.bits + 8 ≤ 32 by omega)
  have hbyte : lowBits 8 (byte.setWidth 32 : Register) = wordBits byte := lowBits_setWidth byte (by decide)
  refine ⟨sextets ++ more, ?_, ?_, ?_⟩
  · rw [Encoder.push, heq, houtput, List.map_append]
  · rw [Encoder.push, heq, List.flatMap_append, List.append_assoc, ← hmore,
      lowBits_shiftIn (by omega) (below_setWidth byte), hbyte, ← List.append_assoc, hbits, List.flatMap_append,
      List.flatMap_singleton]
  · rw [Encoder.push, heq]
    exact Nat.mod_lt _ (by decide)

theorem Encoder.Holds.foldl {e : Encoder} (h : e.Holds bytes) (more : List Byte) :
    (more.foldl Encoder.push e).Holds (bytes ++ more) := by
  induction more generalizing e bytes with
  | nil => simpa using h
  | cons byte more ih =>
    have hrest := ih (h.push byte)
    rwa [List.append_assoc, List.singleton_append] at hrest

theorem lowBits_padded {buffer : Register} {bits : Nat} (h : bits ≤ 6) :
    wordBits ((buffer <<< (6 - bits)).setWidth 6 : Sextet) = lowBits bits buffer ++ List.replicate (6 - bits) false := by
  have hsplit := lowBits_shiftIn (a := bits) (b := 6 - bits) (x := buffer) (y := 0#32) (by omega)
    fun i _ => BitVec.getLsbD_zero
  rw [Nat.add_sub_cancel' h, BitVec.or_zero, lowBits_zero] at hsplit
  rw [← hsplit]
  exact lowBits_setWidth _ (Nat.le_refl 6)

theorem encode_spells (bytes : List Byte) :
    ∃ sextets : List Sextet, encodeAuthBase64Url bytes = sextets.map sextetChar ∧ Spells sextets bytes := by
  have hstart : Encoder.Holds ⟨[], 0, 0⟩ [] := ⟨[], rfl, rfl, by decide⟩
  obtain ⟨sextets, houtput, hbits, hlt⟩ := hstart.foldl bytes
  rw [List.nil_append] at hbits
  rw [encodeAuthBase64Url]
  generalize bytes.foldl Encoder.push ⟨[], 0, 0⟩ = e at houtput hbits hlt
  by_cases hpending : 0 < e.bits
  · refine ⟨sextets ++ [(e.buffer <<< (6 - e.bits)).setWidth 6], ?_, 6 - e.bits, by omega, ?_⟩
    · rw [if_pos hpending, houtput, alphabetAt_mask, List.map_append, List.map_singleton]
    · rw [List.flatMap_append, List.flatMap_singleton, lowBits_padded (by omega), ← List.append_assoc, hbits]
  · refine ⟨sextets, ?_, 0, by decide, ?_⟩
    · rw [if_neg hpending, houtput]
    · rw [Nat.eq_zero_of_not_pos hpending, lowBits] at hbits
      rw [← hbits, List.replicate_zero, List.append_nil, List.append_nil]

theorem encode_eq_iff :
    encodeAuthBase64Url bytes = value ↔ ∃ sextets : List Sextet, value = sextets.map sextetChar ∧ Spells sextets bytes := by
  obtain ⟨sextets, heq, hspells⟩ := encode_spells bytes
  constructor
  · rintro rfl
    exact ⟨sextets, heq, hspells⟩
  · rintro ⟨sextets', rfl, hspells'⟩
    rw [heq, hspells.sextets_unique hspells']

/-! ## Decoding -/

structure Decoder.Reads (d : Decoder) (sextets : List Sextet) (written : List Byte) (room : Nat) : Prop where
  holds : d.bytes.Holds written room
  bits_eq : written.flatMap wordBits ++ lowBits d.bits d.buffer = sextets.flatMap wordBits
  bits_lt : d.bits < 8
  below : Below d.bits d.buffer

variable {written : List Byte}

theorem Decoder.Reads.length {d : Decoder} {room : Nat}
    (h : d.Reads sextets written room) : 8 * written.length + d.bits = 6 * sextets.length := by
  have hlength := congrArg List.length h.bits_eq
  rwa [List.length_append, length_flatMap_wordBits, length_flatMap_wordBits, length_lowBits] at hlength

theorem keptBits_eq : ∀ bits < 8, keptBits bits = BitVec.ofNat 32 (2 ^ bits - 1) := by decide

/-- The next byte has a place, because the places are as many as the bits of the whole text fill. -/
theorem Decoder.Reads.push {d : Decoder} {room total : Nat}
    (h : d.Reads sextets written room) (hroom : written.length + room = total * 3 / 4) (htotal : sextets.length < total)
    (sextet : Sextet) :
    ∃ written' room', (d.push sextet.toNat).Reads (sextets ++ [sextet]) written' room' ∧
      written'.length + room' = total * 3 / 4 := by
  have hlt := h.bits_lt
  have hcount := h.length
  have hvalue : BitVec.ofNat 32 sextet.toNat = sextet.setWidth 32 := by
    apply BitVec.eq_of_toNat_eq
    rw [BitVec.toNat_ofNat, BitVec.toNat_setWidth]
  have hsextet : lowBits 6 (sextet.setWidth 32) = wordBits sextet := lowBits_setWidth sextet (by decide)
  have hpending : written.flatMap wordBits ++ lowBits (d.bits + 6) (d.buffer <<< 6 ||| sextet.setWidth 32) =
      (sextets ++ [sextet]).flatMap wordBits := by
    rw [lowBits_shiftIn (by omega) (below_setWidth sextet), hsextet, ← List.append_assoc, h.bits_eq, List.flatMap_append,
      List.flatMap_singleton]
  have hbelow := h.below.shiftIn (below_setWidth (w := 32) sextet)
  rw [Decoder.push, hvalue]
  generalize d.buffer <<< 6 ||| sextet.setWidth 32 = buffer at hpending hbelow
  by_cases hwhole : 8 ≤ d.bits + 6
  · obtain ⟨room, rfl⟩ : ∃ room', room = room' + 1 := Nat.exists_eq_add_one.mpr (by omega)
    have hsmall : d.bits + 6 - 8 < 8 := by omega
    have hbyte : wordBits ((buffer.sshiftRight (d.bits + 6 - 8) &&& 255).setWidth 8) =
        lowBits 8 (buffer.sshiftRight (d.bits + 6 - 8)) := by
      rw [mask_byte, setWidth_mask (by decide)]
      exact lowBits_setWidth _ (Nat.le_refl 8)
    refine ⟨written ++ [(buffer.sshiftRight (d.bits + 6 - 8) &&& 255).setWidth 8], room, ?_, ?_⟩
    · have hkept : lowBits (d.bits + 6 - 8) (buffer &&& BitVec.ofNat 32 (2 ^ (d.bits + 6 - 8) - 1)) =
          lowBits (d.bits + 6 - 8) buffer := lowBits_mask (by omega)
      have hcut := lowBits_add (a := 8) (b := d.bits + 6 - 8) (x := buffer) (by omega)
      rw [Nat.add_sub_cancel' hwhole] at hcut
      simp only [if_pos hwhole, keptBits_eq _ hsmall]
      refine ⟨h.holds.put _, ?_, hsmall, below_mask _ (show d.bits + 6 - 8 ≤ 32 by omega)⟩
      rw [hkept, List.flatMap_append, List.flatMap_singleton, hbyte, List.append_assoc, ← hcut, hpending]
    · rw [List.length_append, List.length_singleton, ← hroom]
      omega
  · refine ⟨written, room, ?_, hroom⟩
    rw [if_neg hwhole]
    exact ⟨h.holds, hpending, Nat.lt_of_not_le hwhole, hbelow⟩

theorem Decoder.Reads.foldlM {d : Decoder} {room total : Nat}
    (h : d.Reads sextets written room) (more : List Sextet) (hroom : written.length + room = total * 3 / 4)
    (htotal : sextets.length + more.length ≤ total) :
    ∃ d' written' room', (more.map sextetChar).foldlM Decoder.read d = .ok d' ∧ d'.Reads (sextets ++ more) written' room' ∧
      written'.length + room' = total * 3 / 4 := by
  induction more generalizing d sextets written room with
  | nil => exact ⟨d, written, room, rfl, by rwa [List.append_nil], hroom⟩
  | cons sextet more ih =>
    rw [List.length_cons] at htotal
    obtain ⟨written', room', hreads, hroom'⟩ := h.push hroom (by omega) sextet
    obtain ⟨d', written'', room'', hrun, hreads', hroom''⟩ :=
      ih hreads hroom' (by rw [List.length_append, List.length_singleton]; omega)
    refine ⟨d', written'', room'', ?_, ?_, hroom''⟩
    · rw [List.map_cons, List.foldlM_cons, Decoder.read, idxOf?_sextetChar]
      exact hrun
    · rwa [List.append_assoc, List.singleton_append] at hreads'

theorem decode_run (sextets : List Sextet) :
    ∃ d written, (sextets.map sextetChar).foldlM Decoder.read ⟨⟨List.replicate (sextets.length * 3 / 4) 0, 0⟩, 0, 0⟩ = .ok d ∧
      d.Reads sextets written 0 := by
  have hstart : Decoder.Reads ⟨⟨List.replicate (sextets.length * 3 / 4) 0, 0⟩, 0, 0⟩ [] [] (sextets.length * 3 / 4) := by
    refine ⟨?_, rfl, Nat.zero_lt_succ 7, fun i _ => BitVec.getLsbD_zero⟩
    have hholds := Buffer.holds_start (List.replicate (sextets.length * 3 / 4) (0 : Byte))
    rwa [List.length_replicate] at hholds
  obtain ⟨d, written, room, hrun, hreads, hroom⟩ := hstart.foldlM sextets (Nat.zero_add _)
    (Nat.le_of_eq (Nat.zero_add _))
  have hcount := hreads.length
  have hlt := hreads.bits_lt
  rw [List.nil_append] at hreads hcount
  obtain rfl : room = 0 := by omega
  exact ⟨d, written, hrun, hreads⟩

theorem Decoder.Reads.spells_iff {d : Decoder} {room : Nat}
    (h : d.Reads sextets written room) (hlength : sextets.length % 4 ≠ 1) :
    Spells sextets bytes ↔ written = bytes ∧ d.buffer = 0#32 := by
  have hcount := h.length
  have hlt := h.bits_lt
  rw [eq_zero_iff h.below]
  constructor
  · intro hspells
    obtain ⟨padding, hpadding, hlength'⟩ := hspells.length
    obtain ⟨padding', hpadding', hbits⟩ := hspells
    have hboth := h.bits_eq.trans hbits
    obtain ⟨rfl, hrest⟩ := flatMap_wordBits_inj (by omega) hboth
    have hsame := congrArg List.length hrest
    rw [length_lowBits, List.length_replicate] at hsame
    exact ⟨rfl, by rw [hrest, hsame]⟩
  · rintro ⟨rfl, hzero⟩
    exact ⟨d.bits, by omega, by rw [← h.bits_eq, hzero]⟩

theorem decode_eq_ok_iff :
    decodeAuthBase64Url value = .ok bytes ↔ ∃ sextets : List Sextet, value = sextets.map sextetChar ∧ Spells sextets bytes := by
  rw [decodeAuthBase64Url]
  by_cases hreject : value.length % 4 = 1 ∨ ¬ base64UrlPattern value
  · rw [if_pos hreject]
    constructor
    · intro h
      cases h
    · rintro ⟨sextets, rfl, hspells⟩
      obtain ⟨padding, hpadding, hlength⟩ := hspells.length
      rcases hreject with hone | hpattern
      · rw [List.length_map] at hone
        omega
      · exact absurd (base64UrlPattern_iff.mpr ⟨sextets, rfl⟩) hpattern
  · obtain ⟨hone, hpattern⟩ := not_or.mp hreject
    obtain ⟨sextets, rfl⟩ := base64UrlPattern_iff.mp (not_not.mp hpattern)
    rw [List.length_map] at hone
    obtain ⟨d, written, hrun, hreads⟩ := decode_run sextets
    have hmap : (∃ sextets' : List Sextet, sextets.map sextetChar = sextets'.map sextetChar ∧ Spells sextets' bytes) ↔
        Spells sextets bytes := by
      constructor
      · rintro ⟨sextets', hsame, hspells⟩
        rwa [List.map_injective_iff.mpr sextetChar_injective hsame]
      · exact fun hspells => ⟨sextets, rfl, hspells⟩
    rw [if_neg hreject, hmap, hreads.spells_iff hone, List.length_map, hrun]
    change (if 0 < d.bits ∧ d.buffer ≠ 0#32 then Except.error _ else Except.ok d.bytes.cells) = Except.ok bytes ↔ _
    rw [hreads.holds.full.1]
    by_cases hrest : 0 < d.bits ∧ d.buffer ≠ 0#32
    · rw [if_pos hrest]
      constructor
      · intro h
        cases h
      · exact fun h => absurd h.2 hrest.2
    · have hzero : d.buffer = 0#32 := by
        by_contra hne
        refine hrest ⟨Nat.pos_of_ne_zero fun hbits => hne ?_, hne⟩
        have hbelow := hreads.below
        rw [hbits] at hbelow
        exact (eq_zero_iff hbelow).mpr rfl
      rw [if_neg hrest, Except.ok.injEq]
      exact (and_iff_left hzero).symm

/-! ## Envelopes -/

theorem dot_not_mem_sextets (sextets : List Sextet) : dot ∉ sextets.map sextetChar := by
  intro hmem
  obtain ⟨sextet, -, heq⟩ := List.mem_map.mp hmem
  have hunit := isBase64UrlUnit_getD sextet.toNat sextet.isLt
  rw [show base64UrlAlphabet.getD sextet.toNat 0 = dot from heq] at hunit
  exact absurd hunit (by decide)

theorem dot_not_mem_encode (bytes : List Byte) : dot ∉ encodeAuthBase64Url bytes := by
  obtain ⟨sextets, heq, -⟩ := encode_spells bytes
  rw [heq]
  exact dot_not_mem_sextets sextets

theorem length_encode (bytes : List Byte) : ∃ padding < 6, 6 * (encodeAuthBase64Url bytes).length = 8 * bytes.length + padding := by
  obtain ⟨sextets, heq, hspells⟩ := encode_spells bytes
  rw [heq, List.length_map]
  exact hspells.length

theorem encode_eq_nil_iff : encodeAuthBase64Url bytes = [] ↔ bytes = [] := by
  constructor
  · intro h
    obtain ⟨padding, -, hlength⟩ := length_encode bytes
    rw [h, List.length_nil] at hlength
    exact List.length_eq_zero_iff.mp (by omega)
  · rintro rfl
    rfl

theorem splitOn_segments (iv ciphertext : List Byte) :
    (encodeAuthBase64Url iv ++ dot :: encodeAuthBase64Url ciphertext).splitOn dot =
      [encodeAuthBase64Url iv, encodeAuthBase64Url ciphertext] := by
  rw [List.splitOn_append_cons_self_of_not_mem (dot_not_mem_encode iv), List.splitOn_eq_singleton (dot_not_mem_encode ciphertext)]

theorem startsWith_prefix_iff : value.startsWith "v1." = true ↔ ∃ rest, value = envelopePrefix ++ rest := by
  rw [Text.startsWith, List.isPrefixOf_iff_prefix]
  exact ⟨fun ⟨rest, h⟩ => ⟨rest, h.symm⟩, fun ⟨rest, h⟩ => ⟨rest, h.symm⟩⟩

theorem decode_encode (bytes : List Byte) : decodeAuthBase64Url (encodeAuthBase64Url bytes) = .ok bytes :=
  decode_eq_ok_iff.mpr (encode_spells bytes)

theorem encode_of_decode (h : decodeAuthBase64Url value = .ok bytes) :
    encodeAuthBase64Url bytes = value :=
  encode_eq_iff.mpr (decode_eq_ok_iff.mp h)

theorem parseEnvelope_eq_ok_iff {e : ParsedEnvelope} :
    parseEnvelope value = .ok e ↔ envelopePrefix ++ (encodeAuthBase64Url e.iv ++ dot :: encodeAuthBase64Url e.ciphertext) = value ∧
      e.iv.length = ivBytes ∧ e.ciphertext ≠ [] := by
  constructor
  · intro h
    rw [parseEnvelope] at h
    split at h
    · cases h
    rename_i hmark
    obtain ⟨rest, rfl⟩ := startsWith_prefix_iff.mp (not_not.mp hmark)
    rw [List.drop_left] at h
    have hjoin : [dot].intercalate (rest.splitOn dot) = rest := List.intercalate_splitOn dot
    generalize rest.splitOn dot = segments at h hjoin
    split at h
    · rename_i encodedIv encodedCiphertext
      split at h
      · cases h
      rename_i hsegments
      cases hiv : decodeAuthBase64Url encodedIv with
      | error error =>
        rw [hiv] at h
        cases h
      | ok iv =>
        cases hciphertext : decodeAuthBase64Url encodedCiphertext with
        | error error =>
          rw [hiv, hciphertext] at h
          change (if iv.length ≠ ivBytes then Except.error _ else Except.error error) = _ at h
          split at h <;> cases h
        | ok ciphertext =>
          rw [hiv, hciphertext] at h
          change (if iv.length ≠ ivBytes then Except.error _ else Except.ok (ParsedEnvelope.mk iv ciphertext)) = _ at h
          split at h
          · cases h
          rename_i hlength
          obtain rfl := Except.ok.inj h
          obtain rfl := encode_of_decode hiv
          obtain rfl := encode_of_decode hciphertext
          rw [List.intercalate_cons_cons, List.intercalate_singleton, List.append_assoc, List.singleton_append] at hjoin
          refine ⟨congrArg (envelopePrefix ++ ·) hjoin, not_not.mp hlength, ?_⟩
          rintro rfl
          exact hsegments (.inr rfl)
    · cases h
  · rintro ⟨rfl, hlength, hciphertext⟩
    have hiv : e.iv ≠ [] := by
      intro hnil
      rw [hnil] at hlength
      cases hlength
    have hsegments : ¬ (encodeAuthBase64Url e.iv = [] ∨ encodeAuthBase64Url e.ciphertext = []) := by
      rw [encode_eq_nil_iff, encode_eq_nil_iff]
      exact not_or.mpr ⟨hiv, hciphertext⟩
    have hdecodeIv := decode_encode e.iv
    have hdecode := decode_encode e.ciphertext
    have hmark : ∀ rest, (envelopePrefix ++ rest).startsWith "v1." = true :=
      fun rest => startsWith_prefix_iff.mpr ⟨rest, rfl⟩
    rw [parseEnvelope, if_neg (not_not.mpr (hmark _)), List.drop_left, splitOn_segments]
    simp only [if_neg hsegments, hdecodeIv, hdecode]
    change (if e.iv.length ≠ ivBytes then Except.error _ else Except.ok e) = Except.ok e
    rw [if_neg (not_not.mpr hlength)]

theorem length_envelope {iv ciphertext : List Byte} (hiv : iv.length = ivBytes)
    (hciphertext : ciphertext.length ≤ maxPlaintextJsonBytes + 16) :
    (envelopePrefix ++ encodeAuthBase64Url iv ++ dot :: encodeAuthBase64Url ciphertext).length ≤ maxEnvelopeChars := by
  obtain ⟨padding, _, hlength⟩ := length_encode iv
  obtain ⟨padding', _, hlength'⟩ := length_encode ciphertext
  have hmark : envelopePrefix.length = 3 := rfl
  rw [List.length_append, List.length_append, List.length_cons, hmark]
  rw [hiv] at hlength
  unfold ivBytes at hlength
  unfold maxPlaintextJsonBytes at hciphertext
  unfold maxEnvelopeChars
  omega

/-! ## What comes back -/

/-- A text is decoded if and only if it is the one that its bytes are encoded as. -/
theorem decodeAuthBase64Url_eq_ok_iff {value : Text} {bytes : List Byte} :
    decodeAuthBase64Url value = .ok bytes ↔ encodeAuthBase64Url bytes = value :=
  decode_eq_ok_iff.trans encode_eq_iff.symm

/-- An envelope is opened if and only if it is what sealing a vector of the right length and some ciphertext gives, and
sealing fails for no ciphertext that the bound on the plaintext allows. -/
theorem envelopes_come_back :
    (∀ (value : Text) (e : ParsedEnvelope), openEnvelope value = .ok e ↔
      envelopeValue e.iv e.ciphertext = .ok value ∧ e.iv.length = ivBytes ∧ e.ciphertext ≠ []) ∧
    ∀ iv ciphertext : List Byte, iv.length = ivBytes → ciphertext.length ≤ maxPlaintextJsonBytes + 16 →
      ∃ value, envelopeValue iv ciphertext = .ok value := by
  constructor
  · intro value e
    rw [openEnvelope, envelopeValue]
    change (if maxEnvelopeChars < value.length then Except.error _ else parseEnvelope value) = Except.ok e ↔
      (if maxEnvelopeChars < _ then Except.error _ else Except.ok _) = Except.ok value ∧ _
    constructor
    · intro h
      split at h
      · cases h
      rename_i hfits
      obtain ⟨rfl, hlength, hciphertext⟩ := parseEnvelope_eq_ok_iff.mp h
      rw [List.append_assoc, if_neg hfits]
      exact ⟨rfl, hlength, hciphertext⟩
    · rintro ⟨h, hlength, hciphertext⟩
      split at h
      · cases h
      rename_i hfits
      obtain rfl := Except.ok.inj h
      rw [if_neg hfits]
      exact parseEnvelope_eq_ok_iff.mpr ⟨(List.append_assoc _ _ _).symm, hlength, hciphertext⟩
  · intro iv ciphertext hiv hciphertext
    rw [envelopeValue, if_neg (Nat.not_lt.mpr (length_envelope hiv hciphertext))]
    exact ⟨_, rfl⟩

theorem envelopes_come_back_sealed :
    openEnvelope (.of "v1.BwcHBwcHBwcHBwcH.AQI_") = .ok ⟨List.replicate 12 7, [1, 2, 63]⟩ :=
  (envelopes_come_back.1 _ _).mpr ⟨by decide, by decide, by decide⟩

end Veryfront.Security.Auth
