import Mathlib.Data.List.TakeWhile
import Veryfront.Cache.SegmentCodec

/-!
# Cache-key segments read back

Each codec reads back what it has written, and the first two accept nothing else.
-/

namespace Veryfront.Cache

open Lib

/-- The colon between the segments of a key. -/
def separator : Nat := 58

/-! ## Literal segments -/

theorem lowerHex_range {digit : Nat} (h : digit < 16) :
    (48 ≤ lowerHex digit ∧ lowerHex digit ≤ 57) ∨ (97 ≤ lowerHex digit ∧ lowerHex digit ≤ 102) := by
  unfold lowerHex
  split <;> omega

theorem hexDigits_lowerHex_range {n : Nat} (h : n < 0x10000) :
    ∀ c ∈ hexDigits lowerHex n, (48 ≤ c ∧ c ≤ 57) ∨ (97 ≤ c ∧ c ≤ 102) := by
  intro c hc
  simp only [hexDigits, List.mem_cons, List.not_mem_nil, or_false] at hc
  rcases hc with rfl | rfl | rfl | rfl <;> exact lowerHex_range (by omega)

variable {codeUnit : Nat}

theorem decodeLiteralFrom_escapeCodeUnit (h : codeUnit < 0x10000) (rest : Text) :
    decodeLiteralFrom 0 (escapeCodeUnit codeUnit ++ rest) = (decodeLiteralFrom 0 rest).map (codeUnit :: ·) := by
  rw [escapeCodeUnit]
  split
  · rename_i hliteral
    rw [List.singleton_append, decodeLiteralFrom, if_pos hliteral]
    cases decodeLiteralFrom 0 rest <;> rfl
  · rename_i hescaped
    have htake : (hexDigits lowerHex codeUnit ++ rest).take 4 = hexDigits lowerHex codeUnit := rfl
    have hskip : decodeLiteralFrom 4 (hexDigits lowerHex codeUnit ++ rest) = decodeLiteralFrom 0 rest := rfl
    have hlower : isLowercaseHexCodeUnit (hexDigits lowerHex codeUnit) = true := by
      rw [isLowercaseHexCodeUnit, Bool.and_eq_true, List.all_eq_true]
      exact ⟨rfl, fun c hc => by simpa using hexDigits_lowerHex_range h c hc⟩
    have hparse := parseHex_hexDigits (fun d hd => hexDigit_lowerHex hd) h
    rw [padStart_toHex h, List.cons_append, decodeLiteralFrom, if_neg (by decide), if_neg (by simp [hexDigits])]
    simp only [htake, hparse]
    rw [if_neg (by simp [hlower, hescaped]), hskip]
    cases decodeLiteralFrom 0 rest <;> rfl

variable {value : Text}

theorem decodeLiteralFrom_flatMap (h : ∀ u ∈ value, u < 0x10000) :
    decodeLiteralFrom 0 (value.flatMap escapeCodeUnit) = some value := by
  induction value with
  | nil => rfl
  | cons u value ih =>
    rw [List.flatMap_cons, decodeLiteralFrom_escapeCodeUnit (h u List.mem_cons_self),
      ih fun u hu => h u (List.mem_cons_of_mem _ hu)]
    rfl

theorem decode_encodeLiteral (h : ∀ u ∈ value, u < 0x10000) :
    decodeCacheKeyLiteralSegment (encodeCacheKeyLiteralSegment value) = some value := by
  have hbody : (encodeCacheKeyLiteralSegment value).tail.dropLast = value.flatMap escapeCodeUnit := by
    rw [encodeCacheKeyLiteralSegment, show Text.of "s" = [115] from rfl, List.append_assoc, List.singleton_append, List.tail_cons,
      List.dropLast_concat]
  rw [decodeCacheKeyLiteralSegment, if_neg, hbody, decodeLiteralFrom_flatMap h]
  · simp
  · simp [encodeCacheKeyLiteralSegment, show Text.of "s" = [115] from rfl, List.getLast?_cons]

theorem colon_notMem_encodeLiteral (h : ∀ u ∈ value, u < 0x10000) :
    separator ∉ encodeCacheKeyLiteralSegment value := by
  have hescape : ∀ u ∈ value, separator ∉ escapeCodeUnit u := by
    intro u hu hmem
    rw [escapeCodeUnit, padStart_toHex (h u hu)] at hmem
    split at hmem
    · rename_i hliteral
      obtain rfl := List.mem_singleton.mp hmem
      cases hliteral
    · rcases List.mem_cons.mp hmem with heq | hmem
      · cases heq
      · have := hexDigits_lowerHex_range (h u hu) separator hmem
        simp [separator] at this
  simp only [encodeCacheKeyLiteralSegment, List.mem_append, List.mem_flatMap, not_or, not_exists, not_and]
  exact ⟨⟨by decide, hescape⟩, by decide⟩

/-! ## Percent segments -/

/-- What stands for a code point, a surrogate that stands alone included. -/
def percentPiece (point : Nat) : Text := if isSurrogate point then formatEscapedSurrogate point else escapePoint point

theorem encodeURIComponent_of_wellFormed (h : WellFormed value) :
    encodeURIComponent value = some ((codePoints value).flatMap percentPiece) := by
  have hpieces : (codePoints value).flatMap escapePoint = (codePoints value).flatMap percentPiece :=
    List.flatMap_congr fun p hp => by rw [percentPiece, h p hp, if_neg Bool.false_ne_true]
  rw [encodeURIComponent, if_neg, hpieces]
  simp only [List.any_eq_true, not_exists, not_and]
  exact fun p hp => by rw [h p hp]; exact Bool.false_ne_true

theorem codePoints_cons_of_unpaired {rest : Text}
    (h : (isHighSurrogate codeUnit && rest.head?.any isLowSurrogate) = false) :
    codePoints (codeUnit :: rest) = codeUnit :: codePoints rest := by
  cases rest with
  | nil => rfl
  | cons next rest =>
    rw [codePoints, if_neg]
    simpa using h

theorem wellFormed_singleton (h : isSurrogate codeUnit = false) : WellFormed [codeUnit] := by
  intro point hp
  obtain rfl := List.mem_singleton.mp hp
  exact h

theorem isSurrogate_eq (codeUnit : Nat) : isSurrogate codeUnit = (isHighSurrogate codeUnit || isLowSurrogate codeUnit) := by
  rw [Bool.eq_iff_iff, Bool.or_eq_true, isSurrogate_iff, isHighSurrogate_iff, isLowSurrogate_iff]
  omega

theorem wellFormed_pair {high low : Nat} (h : isHighSurrogate high = true) (h' : isLowSurrogate low = true) :
    WellFormed [high, low] := by
  intro point hp
  have hpoint : point = pairPoint high low := by simpa [codePoints, h, h'] using hp
  rw [isHighSurrogate_iff] at h
  rw [isLowSurrogate_iff] at h'
  rw [hpoint, Bool.eq_false_iff, ne_eq, isSurrogate_iff]
  unfold pairPoint
  omega

theorem encodeChunks_eq {chunk : Text} (hchunk : WellFormed chunk.reverse) :
    encodeChunks false chunk value = some ((codePoints (chunk.reverse ++ value)).flatMap percentPiece) := by
  induction hn : value.length using Nat.strong_induction_on generalizing chunk value with
  | h n ih =>
    cases value with
    | nil => rw [encodeChunks, encodeURIComponent_of_wellFormed hchunk, List.append_nil]
    | cons unit rest =>
      rw [encodeChunks]
      split
      · rename_i hpair
        cases rest with
        | nil => simp at hpair
        | cons next rest =>
          obtain ⟨hhigh, hlow⟩ := Bool.and_eq_true_iff.mp hpair
          have hwell : WellFormed (next :: unit :: chunk).reverse := by
            rw [List.reverse_cons, List.reverse_cons, List.append_assoc]
            exact hchunk.append (wellFormed_pair hhigh hlow)
          rw [encodeChunks, ih rest.length (by simp only [← hn, List.length_cons]; omega) hwell rfl]
          simp
      · rename_i hunpaired
        split
        · rename_i hplain
          have hno : isSurrogate unit = false := by
            rw [isSurrogate_eq]
            simpa using hplain
          have hwell : WellFormed (unit :: chunk).reverse := by
            rw [List.reverse_cons]
            exact hchunk.append (wellFormed_singleton hno)
          rw [ih rest.length (by simp [← hn]) hwell rfl]
          simp
        · rename_i hlone
          have hsurrogate : isSurrogate unit = true := by
            rw [isSurrogate_eq]
            simpa [Bool.or_eq_true, or_iff_not_imp_left] using hlone
          have hrest := @ih rest.length (by simp [← hn]) rest [] (fun _ hp => nomatch hp) rfl
          rw [List.reverse_nil, List.nil_append] at hrest
          have hpoints := codePoints_cons_of_unpaired (Bool.eq_false_of_not_eq_true hunpaired)
          rw [hchunk.codePoints_append, hpoints, List.flatMap_append, List.flatMap_cons,
            encodeURIComponent_of_wellFormed hchunk, hrest, percentPiece, if_pos hsurrogate]
          simp

theorem encodePercent_eq (value : Text) :
    encodeCacheKeyPercentSegment value = some ((codePoints value).flatMap percentPiece) := by
  rw [encodeCacheKeyPercentSegment]
  by_cases hwell : WellFormed value
  · rw [encodeURIComponent_of_wellFormed hwell]
  · have hnone : encodeURIComponent value = none := by
      rw [encodeURIComponent, if_pos]
      simpa [WellFormed] using hwell
    rw [hnone]
    exact encodeChunks_eq fun _ hp => absurd hp List.not_mem_nil

/-! What is read back. -/

theorem formatEscapedSurrogate_eq (h : codeUnit < 0x10000) :
    formatEscapedSurrogate codeUnit = 37 :: 117 :: hexDigits upperHex codeUnit := by
  have hupper : ∀ digit < 16, upperCase (lowerHex digit) = upperHex digit := by decide
  have hpad : padStart ((toHex codeUnit).map upperCase) 4 48 = (padStart (toHex codeUnit) 4 48).map upperCase := by
    rw [padStart, padStart, List.map_append, List.length_map, List.map_replicate]
    rfl
  rw [formatEscapedSurrogate, hpad, padStart_toHex h]
  simp only [hexDigits, List.map_cons, List.map_nil, hupper (codeUnit / 4096) (by omega),
    hupper (codeUnit / 256 % 16) (by omega), hupper (codeUnit / 16 % 16) (by omega), hupper (codeUnit % 16) (by omega)]
  rfl

theorem upperHex_range {digit : Nat} (h : digit < 16) :
    (48 ≤ upperHex digit ∧ upperHex digit ≤ 57) ∨ (65 ≤ upperHex digit ∧ upperHex digit ≤ 70) := by
  unfold upperHex
  split <;> omega

theorem escapedSurrogateAt_format (h : isSurrogate codeUnit = true) (rest : Text) :
    escapedSurrogateAt (37 :: 117 :: hexDigits upperHex codeUnit ++ rest) = some codeUnit := by
  have hlt : codeUnit < 0x10000 := by
    rw [isSurrogate_iff] at h
    omega
  have htake : ((37 :: 117 :: hexDigits upperHex codeUnit ++ rest).drop 2).take 4 = hexDigits upperHex codeUnit := rfl
  have hparse := parseHex_hexDigits (fun d hd => hexDigit_upperHex hd) hlt
  have hcanonical : isCanonicalEscapedCodeUnit (hexDigits upperHex codeUnit) = true := by
    rw [isCanonicalEscapedCodeUnit, Bool.and_eq_true, List.all_eq_true]
    refine ⟨rfl, fun c hc => ?_⟩
    simp only [hexDigits, List.mem_cons, List.not_mem_nil, or_false] at hc
    rcases hc with rfl | rfl | rfl | rfl <;> simpa using upperHex_range (by omega)
  rw [escapedSurrogateAt, htake, hparse, if_pos ⟨rfl, hcanonical, h⟩]

variable {point : Nat}

theorem decodeChunks_escapePoint (h : Scalar point) (chunk rest : Text) :
    decodeChunks 0 chunk (escapePoint point ++ rest) = decodeChunks 0 ((escapePoint point).reverse ++ chunk) rest := by
  have hstep : ∀ (c : Nat) (chunk rest : Text), (c ≠ 37 ∨ rest.head? ≠ some 117) →
      decodeChunks 0 chunk (c :: rest) = decodeChunks 0 (c :: chunk) rest := by
    intro c chunk rest hc
    have hnone : escapedSurrogateAt (c :: rest) = none := by
      rw [escapedSurrogateAt, if_neg]
      rintro ⟨hstart, -⟩
      cases rest with
      | nil => simp [Text.startsWith, show Text.of "%u" = [37, 117] from rfl, List.isPrefixOf] at hstart
      | cons d rest =>
        have hboth : 37 = c ∧ 117 = d := by
          simpa [Text.startsWith, show Text.of "%u" = [37, 117] from rfl, List.isPrefixOf] using hstart
        rcases hc with hc | hc
        · exact hc hboth.1.symm
        · exact hc (congrArg some hboth.2.symm)
    rw [decodeChunks, hnone]
  have hdigit : ∀ digit, digit < 16 → upperHex digit ≠ 37 ∧ upperHex digit ≠ 117 := by
    intro digit hlt
    have := upperHex_range hlt
    omega
  have hoctets : ∀ (octets : List Nat) (chunk : Text), (∀ o ∈ octets, o < 256) →
      decodeChunks 0 chunk (octets.flatMap escapeOctet ++ rest) =
        decodeChunks 0 ((octets.flatMap escapeOctet).reverse ++ chunk) rest := by
    intro octets
    induction octets with
    | nil => exact fun _ _ => rfl
    | cons octet octets ih =>
      intro chunk hlt
      have hoctet := hlt octet List.mem_cons_self
      have hhigh := hdigit (octet / 16) (by omega)
      have hlow := hdigit (octet % 16) (by omega)
      have htext : (octet :: octets).flatMap escapeOctet ++ rest =
          percent :: upperHex (octet / 16) :: upperHex (octet % 16) :: (octets.flatMap escapeOctet ++ rest) := by
        simp [escapeOctet]
      rw [htext, hstep _ _ _ (.inr (by simp [hhigh.2])), hstep _ _ _ (.inl hhigh.1), hstep _ _ _ (.inl hlow.1),
        ih _ fun o ho => hlt o (List.mem_cons_of_mem _ ho)]
      simp [escapeOctet]
  rw [escapePoint]
  split
  · rename_i hun
    refine hstep _ _ _ (.inl ?_)
    rintro rfl
    cases hun
  · exact hoctets _ _ (Utf8.encode_lt h.lt)

variable {points : List Nat}

theorem decodeChunks_pieces {read : List Nat} (hpoints : ∀ p ∈ points, p < 0x110000) (hread : ∀ p ∈ read, Scalar p) :
    decodeChunks 0 (read.flatMap escapePoint).reverse (points.flatMap percentPiece) =
      some ((read ++ points).flatMap unitsOf) := by
  induction points generalizing read with
  | nil => rw [List.flatMap_nil, decodeChunks, List.reverse_reverse, decodeURIComponent_escape hread, List.append_nil]
  | cons point points ih =>
    have hrest : ∀ p ∈ points, p < 0x110000 := fun p hp => hpoints p (List.mem_cons_of_mem _ hp)
    rw [List.flatMap_cons, percentPiece]
    split
    · rename_i hsurrogate
      have hlt : point < 0x10000 := by
        have := isSurrogate_iff.mp hsurrogate
        omega
      have hhere := escapedSurrogateAt_format hsurrogate (points.flatMap percentPiece)
      have hskip : decodeChunks 5 [] (117 :: hexDigits upperHex point ++ points.flatMap percentPiece) =
          decodeChunks 0 [] (points.flatMap percentPiece) := rfl
      have htail := @ih [] hrest (fun _ hp => nomatch hp)
      rw [List.flatMap_nil, List.reverse_nil, List.nil_append] at htail
      rw [formatEscapedSurrogate_eq hlt]
      rw [List.cons_append] at hhere ⊢
      rw [decodeChunks, hhere, List.reverse_reverse, decodeURIComponent_escape hread]
      simp only [Option.bind_eq_bind, Option.bind_some, hskip, htail]
      rw [List.flatMap_append, List.flatMap_cons, unitsOf.eq_def point, if_pos hlt]
      rfl
    · rename_i hscalar
      have hpoint : Scalar point := ⟨hpoints point List.mem_cons_self, hscalar⟩
      have hmore := @ih (read ++ [point]) hrest (by
        intro p hp
        rcases List.mem_append.mp hp with hp | hp
        · exact hread p hp
        · exact List.mem_singleton.mp hp ▸ hpoint)
      rw [List.flatMap_append, List.flatMap_singleton, List.reverse_append, List.append_assoc, List.singleton_append] at hmore
      rw [decodeChunks_escapePoint hpoint, hmore]

theorem colon_notMem_percentPiece (h : point < 0x110000) : separator ∉ percentPiece point := by
  have hdigit : ∀ digit < 16, separator ≠ upperHex digit := by decide
  rw [percentPiece]
  split
  · rename_i hsurrogate
    have hlt : point < 0x10000 := by
      have := isSurrogate_iff.mp hsurrogate
      omega
    have hmarks : separator ≠ 37 ∧ separator ≠ 117 := by decide
    simp only [formatEscapedSurrogate_eq hlt, hexDigits, List.mem_cons, List.not_mem_nil, or_false, not_or]
    exact ⟨hmarks.1, hmarks.2, hdigit _ (by omega), hdigit _ (by omega), hdigit _ (by omega), hdigit _ (by omega)⟩
  · rw [escapePoint]
    split
    · rename_i hun
      rintro hmem
      obtain rfl := List.mem_singleton.mp hmem
      cases hun
    · intro hmem
      obtain ⟨octet, hoctet, hmem⟩ := List.mem_flatMap.mp hmem
      have hlt := Utf8.encode_lt h octet hoctet
      simp only [escapeOctet, List.mem_cons, List.not_mem_nil, or_false] at hmem
      rcases hmem with heq | heq | heq
      · cases heq
      · exact hdigit _ (by omega) heq
      · exact hdigit _ (by omega) heq

theorem decode_encodePercent (h : ∀ u ∈ value, u < 0x10000) :
    decodeCacheKeyPercentSegment ((codePoints value).flatMap percentPiece) = some value := by
  have hread := @decodeChunks_pieces _ [] (codePoints_lt h) fun _ hp => nomatch hp
  rw [List.flatMap_nil, List.reverse_nil, List.nil_append, flatMap_unitsOf_codePoints h] at hread
  rw [decodeCacheKeyPercentSegment, hread]
  simp [encodePercent_eq]

/-! ## UTF-8 -/

theorem byte_spelling : Utf8.Spelling List.head? 1 fun octet => [octet] where
  length _ := rfl
  octetAt _ _ _ := rfl

theorem decodePoints_skip (skipped bytes : List Nat) : decodePoints skipped.length (skipped ++ bytes) = decodePoints 0 bytes := by
  induction skipped with
  | nil => rfl
  | cons byte skipped ih => exact ih

theorem decodePoints_encode (h : ∀ p ∈ points, Scalar p) :
    decodePoints 0 (points.flatMap Utf8.encode) = some points := by
  induction points with
  | nil => rfl
  | cons point points ih =>
    have hread := Utf8.pointAt_encode byte_spelling (h point List.mem_cons_self) (points.flatMap Utf8.encode)
    obtain ⟨byte, skipped, hbytes⟩ := List.exists_cons_of_length_pos (Utf8.encode_length_pos point)
    have hskip := decodePoints_skip skipped (points.flatMap Utf8.encode)
    have hone : (Utf8.encode point).flatMap (fun octet => [octet]) = Utf8.encode point := List.flatMap_singleton' _
    rw [hone, hbytes, List.cons_append] at hread
    rw [List.flatMap_cons, hbytes, List.cons_append, decodePoints, hread]
    simp only [Option.bind_eq_bind, Option.bind_some, List.length_cons, Nat.add_sub_cancel, hskip,
      ih fun p hp => h p (List.mem_cons_of_mem _ hp)]
    rfl

theorem textEncode_points (h : ∀ p ∈ points, Scalar p) :
    textEncode (points.flatMap unitsOf) = points.flatMap Utf8.encode := by
  rw [textEncode, codePoints_flatMap_unitsOf h]
  exact List.flatMap_congr fun p hp => by rw [if_neg (h p hp).not_surrogate]

theorem head?_of_mark (h : ∀ p ∈ points, Scalar p) {rest : List Nat}
    (hrest : points.flatMap Utf8.encode = [0xEF, 0xBB, 0xBF] ++ rest) : points.head? = some 0xFEFF := by
  have hread : Utf8.pointAt List.head? 1 ([0xEF, 0xBB, 0xBF] ++ rest) = some (0xFEFF, 3) := rfl
  cases points with
  | nil => cases hrest
  | cons point points =>
    have hfirst := Utf8.pointAt_encode byte_spelling (h point List.mem_cons_self) (points.flatMap Utf8.encode)
    have hone : (Utf8.encode point).flatMap (fun octet => [octet]) = Utf8.encode point := List.flatMap_singleton' _
    rw [hone, ← List.flatMap_cons, hrest, hread] at hfirst
    exact congrArg some (Prod.mk.inj (Option.some.inj hfirst)).1.symm

theorem textDecode_textEncode (h : ∀ p ∈ points, Scalar p) (hmark : points.head? ≠ some 0xFEFF) :
    textDecode (textEncode (points.flatMap unitsOf)) = some (points.flatMap unitsOf) := by
  have hno : [0xEF, 0xBB, 0xBF].isPrefixOf (points.flatMap Utf8.encode) = false := by
    rw [Bool.eq_false_iff]
    intro hpre
    obtain ⟨rest, hrest⟩ := List.isPrefixOf_iff_prefix.mp hpre
    exact hmark (head?_of_mark h hrest.symm)
  rw [textDecode, textEncode_points h, hno, if_neg Bool.false_ne_true, decodePoints_encode h]
  rfl

theorem textDecode_textEncode_mark (h : ∀ p ∈ points, Scalar p) :
    textDecode (textEncode ((0xFEFF :: points).flatMap unitsOf)) = some (points.flatMap unitsOf) := by
  have hmark : Scalar 0xFEFF := ⟨by decide, by decide⟩
  have hoctets : (0xFEFF :: points).flatMap Utf8.encode = 0xEF :: 0xBB :: 0xBF :: points.flatMap Utf8.encode := rfl
  have hstart : [0xEF, 0xBB, 0xBF].isPrefixOf (0xEF :: 0xBB :: 0xBF :: points.flatMap Utf8.encode) = true := by simp
  rw [textDecode, textEncode_points (List.forall_mem_cons.mpr ⟨hmark, h⟩), hoctets, if_pos hstart, List.drop_succ_cons,
    List.drop_succ_cons, List.drop_succ_cons, List.drop_zero, decodePoints_encode h]
  rfl

/-! ## JSON -/

theorem jsonNamed_lookup {name : Nat} (h : jsonNamed.lookup point = some name) : (point, name) ∈ jsonNamed := by
  obtain ⟨before, after, hnamed, -⟩ := List.lookup_eq_some_iff.mp h
  rw [hnamed]
  exact List.mem_append_right before List.mem_cons_self

theorem jsonNamed_lookup_none (h : jsonNamed.lookup point = none) : point ≠ 34 ∧ point ≠ 92 := by
  constructor <;> rintro rfl <;> cases h

theorem ascii_spelled {t : Text} (h : ∀ c ∈ t, c < 0x80) : (∀ c ∈ t, Scalar c) ∧ t = t.flatMap unitsOf := by
  constructor
  · intro c hc
    have hlt := h c hc
    exact ⟨by omega, by rw [isSurrogate_iff]; omega⟩
  · have hunits : t.flatMap unitsOf = t.flatMap fun c => [c] :=
      List.flatMap_congr fun c hc => by rw [unitsOf, if_pos (Nat.lt_trans (h c hc) (by decide))]
    rw [hunits, List.flatMap_singleton']

theorem jsonEscape_spelled (h : point < 0x110000) :
    ∃ points : List Nat, (∀ p ∈ points, Scalar p) ∧ jsonEscape point = points.flatMap unitsOf := by
  rw [jsonEscape]
  split
  · rename_i name hname
    have hascii : ∀ c ∈ [92, name], c < 0x80 := by
      have hmem := jsonNamed_lookup hname
      have hnamed : ∀ named ∈ jsonNamed, named.2 < 0x80 := by decide
      simpa using hnamed _ hmem
    exact ⟨_, ascii_spelled hascii⟩
  · split
    · rename_i hspecial
      have hlt : point < 0x10000 := by
        simp only [Bool.or_eq_true, decide_eq_true_eq, isSurrogate_iff] at hspecial
        omega
      have hascii : ∀ c ∈ Text.of "\\u" ++ padStart (toHex point) 4 48, c < 0x80 := by
        intro c hc
        rcases List.mem_append.mp hc with hc | hc
        · have hmarks : ∀ c ∈ Text.of "\\u", c < 0x80 := by decide
          exact hmarks c hc
        · rw [padStart_toHex hlt] at hc
          have := hexDigits_lowerHex_range hlt c hc
          omega
      exact ⟨_, ascii_spelled hascii⟩
    · rename_i hplain
      have hscalar : Scalar point := ⟨h, by simp at hplain; simp [hplain.2]⟩
      exact ⟨[point], by simpa using hscalar, by simp⟩

theorem jsonQuote_spelled (h : ∀ u ∈ value, u < 0x10000) :
    ∃ points : List Nat, (∀ p ∈ points, Scalar p) ∧ points.head? ≠ some 0xFEFF ∧ jsonQuote value = points.flatMap unitsOf := by
  have hbody : ∀ points : List Nat, (∀ p ∈ points, p < 0x110000) →
      ∃ spelled : List Nat, (∀ p ∈ spelled, Scalar p) ∧ points.flatMap jsonEscape = spelled.flatMap unitsOf := by
    intro points
    induction points with
    | nil => exact fun _ => ⟨[], by simp⟩
    | cons point points ih =>
      intro hlt
      obtain ⟨here, hhere, hescape⟩ := jsonEscape_spelled (hlt point List.mem_cons_self)
      obtain ⟨rest, hrest, hescapes⟩ := ih fun p hp => hlt p (List.mem_cons_of_mem _ hp)
      exact ⟨here ++ rest, fun p hp => (List.mem_append.mp hp).elim (hhere p) (hrest p), by
        rw [List.flatMap_cons, List.flatMap_append, hescape, hescapes]⟩
  obtain ⟨spelled, hscalar, hescapes⟩ := hbody _ (codePoints_lt h)
  have hquote : Scalar 34 := ⟨by decide, by decide⟩
  refine ⟨34 :: (spelled ++ [34]), ?_, by simp, ?_⟩
  · intro p hp
    simp only [List.mem_cons, List.mem_append, List.not_mem_nil, or_false] at hp
    rcases hp with rfl | hp | rfl
    · exact hquote
    · exact hscalar p hp
    · exact hquote
  · rw [jsonQuote, hescapes, List.flatMap_cons, List.flatMap_append]
    rfl

theorem jsonUnquote_jsonEscape (h : point < 0x110000) (rest : Text) :
    jsonUnquote 0 (jsonEscape point ++ rest) = (jsonUnquote 0 rest).map (unitsOf point ++ ·) := by
  have hplain : ∀ unit rest, 32 ≤ unit → unit ≠ 34 → unit ≠ 92 →
      jsonUnquote 0 (unit :: rest) = (jsonUnquote 0 rest).map (unit :: ·) := by
    intro unit rest hlow hquote hslash
    rw [jsonUnquote, if_neg hquote, if_neg hslash, if_neg (by omega)]
    cases jsonUnquote 0 rest <;> rfl
  rw [jsonEscape]
  split
  · rename_i name hname
    have hmem := jsonNamed_lookup hname
    simp only [jsonNamed, List.mem_cons, Prod.mk.injEq, List.not_mem_nil, or_false] at hmem
    have hread : jsonEscapeAt (name :: rest) = some (point, 1) := by
      rcases hmem with ⟨rfl, rfl⟩ | ⟨rfl, rfl⟩ | ⟨rfl, rfl⟩ | ⟨rfl, rfl⟩ | ⟨rfl, rfl⟩ | ⟨rfl, rfl⟩ | ⟨rfl, rfl⟩ <;> rfl
    have hunits : unitsOf point = [point] := by
      rw [unitsOf, if_pos (by omega)]
    rw [List.cons_append, jsonUnquote, if_neg (by decide), if_pos rfl, List.singleton_append, hread, hunits]
    simp only [Option.bind_eq_bind, Option.bind_some, jsonUnquote]
    cases jsonUnquote 0 rest <;> rfl
  · rename_i hname
    obtain ⟨hquote, hslash⟩ := jsonNamed_lookup_none hname
    split
    · rename_i hspecial
      have hlt : point < 0x10000 := by
        simp only [Bool.or_eq_true, decide_eq_true_eq, isSurrogate_iff] at hspecial
        omega
      have hdigits : (hexDigits lowerHex point).all (fun c => (hexDigit c).isSome) = true := by
        simp [hexDigits, hexDigit_lowerHex (show point / 4096 < 16 by omega),
          hexDigit_lowerHex (show point / 256 % 16 < 16 by omega), hexDigit_lowerHex (show point / 16 % 16 < 16 by omega),
          hexDigit_lowerHex (show point % 16 < 16 by omega)]
      have hread : jsonEscapeAt (117 :: (hexDigits lowerHex point ++ rest)) = some (point, 5) := by
        have hparse := parseHex_hexDigits (fun d hd => hexDigit_lowerHex hd) hlt
        rw [hexDigits] at hdigits hparse ⊢
        rw [List.cons_append, List.cons_append, List.cons_append, List.cons_append, jsonEscapeAt, if_pos hdigits, hparse]
      have hskip : jsonUnquote 5 (117 :: (hexDigits lowerHex point ++ rest)) = jsonUnquote 0 rest := rfl
      have hunits : unitsOf point = [point] := by rw [unitsOf, if_pos hlt]
      rw [padStart_toHex hlt, show Text.of "\\u" = [92, 117] from rfl, List.cons_append, List.cons_append, List.cons_append,
        List.nil_append, jsonUnquote, if_neg (by decide), if_pos rfl, List.cons_append, hread, hunits]
      simp only [Option.bind_eq_bind, Option.bind_some, hskip]
      cases jsonUnquote 0 rest <;> rfl
    · rename_i hordinary
      simp only [Bool.or_eq_true, decide_eq_true_eq, not_or] at hordinary
      rw [unitsOf]
      split
      · exact hplain point rest (by omega) hquote hslash
      · rw [List.cons_append, List.singleton_append, hplain _ _ (by omega) (by omega) (by omega),
          hplain _ _ (by omega) (by omega) (by omega), Option.map_map]
        rfl

theorem jsonString_jsonQuote (h : ∀ u ∈ value, u < 0x10000) : jsonString (jsonQuote value) = some value := by
  have hbody : ∀ points : List Nat, (∀ p ∈ points, p < 0x110000) →
      jsonUnquote 0 (points.flatMap jsonEscape ++ [34]) = some (points.flatMap unitsOf) := by
    intro points
    induction points with
    | nil => exact fun _ => rfl
    | cons point points ih =>
      intro hlt
      rw [List.flatMap_cons, List.append_assoc, jsonUnquote_jsonEscape (hlt point List.mem_cons_self),
        ih fun p hp => hlt p (List.mem_cons_of_mem _ hp)]
      rfl
  have hread := hbody _ (codePoints_lt h)
  rw [flatMap_unitsOf_codePoints h] at hread
  exact hread

/-! ## Base 64 -/

theorem base64Value_base64Char : ∀ v < 64, base64Value (base64Char v) = some v := by decide

theorem ofUrlChar_toUrlChar : ∀ v < 64, ofUrlChar (toUrlChar (base64Char v)) = base64Char v := by decide

theorem isBase64Url_toUrlChar : ∀ v < 64, isBase64Url (toUrlChar (base64Char v)) = true := by decide

theorem sextets_lt {bytes : List Nat} (h : ∀ b ∈ bytes, b < 256) : ∀ v ∈ sextets bytes, v < 64 := by
  induction bytes using sextets.induct with
  | case1 => exact fun _ hv => nomatch hv
  | case2 a =>
    have ha := h a List.mem_cons_self
    intro v hv
    simp only [sextets, List.mem_cons, List.not_mem_nil, or_false] at hv
    omega
  | case3 a b =>
    have ha := h a (by simp)
    have hb := h b (by simp)
    intro v hv
    simp only [sextets, List.mem_cons, List.not_mem_nil, or_false] at hv
    omega
  | case4 a b c rest ih =>
    have ha := h a (by simp)
    have hb := h b (by simp)
    have hc := h c (by simp)
    have hrest := ih fun b hb => h b (by simp [hb])
    intro v hv
    simp only [sextets, List.mem_cons] at hv
    rcases hv with rfl | rfl | rfl | rfl | hv
    · omega
    · omega
    · omega
    · omega
    · exact hrest v hv

theorem bytesOf_sextets {bytes : List Nat} (h : ∀ b ∈ bytes, b < 256) : bytesOf (sextets bytes) = bytes := by
  induction bytes using sextets.induct with
  | case1 => rfl
  | case2 a =>
    have ha := h a List.mem_cons_self
    simp only [sextets, bytesOf, List.cons.injEq, and_true]
    omega
  | case3 a b =>
    have ha := h a (by simp)
    have hb := h b (by simp)
    simp only [sextets, bytesOf, List.cons.injEq, and_true]
    omega
  | case4 a b c rest ih =>
    have ha := h a (by simp)
    have hb := h b (by simp)
    have hc := h c (by simp)
    simp only [sextets, bytesOf, List.cons.injEq, ih fun b hb => h b (by simp [hb]), and_true]
    omega

theorem sextets_length (bytes : List Nat) : (sextets bytes).length % 4 ≠ 1 := by
  induction bytes using sextets.induct with
  | case1 => decide
  | case2 a => simp [sextets]
  | case3 a b => simp [sextets]
  | case4 a b c rest ih =>
    simp only [sextets, List.length_cons]
    omega

theorem encodeCacheKeySegment_eq {values : List Nat} (hlt : ∀ v ∈ values, v < 64)
    (h : sextets (textEncode (jsonQuote value)) = values) :
    encodeCacheKeySegment value = values.map fun v => toUrlChar (base64Char v) := by
  have hequals : ∀ v < 64, toUrlChar (base64Char v) ≠ equals := by decide
  have hmark : toUrlChar equals = equals := by decide
  rw [encodeCacheKeySegment, btoa, h, List.map_append, List.map_replicate, hmark, List.map_map, List.reverse_append,
    List.reverse_replicate, List.dropWhile_append_of_pos (by simp), List.dropWhile_eq_self_iff.mpr, List.reverse_reverse]
  · rfl
  · intro hpos hlast
    have hmem := List.getElem_mem hpos
    rw [List.mem_reverse] at hmem
    obtain ⟨v, hv, heq⟩ := List.mem_map.mp hmem
    exact hequals v (hlt v hv) (heq.trans (of_decide_eq_true hlast))

theorem stripPadding_replicate {t : Text} (h : equals ∉ t) {k : Nat} (hk : k ≤ 2) :
    stripPadding (t ++ List.replicate k equals) = t := by
  have hends : ∀ s, equals ∈ Text.of s → t.endsWith s = false := by
    intro s hs
    rw [Text.endsWith, Bool.eq_false_iff]
    exact fun hsuffix => h ((List.isSuffixOf_iff_suffix.mp hsuffix).subset hs)
  rw [stripPadding]
  match k, hk with
  | 0, _ => rw [List.replicate_zero, List.append_nil, hends _ (by decide), hends _ (by decide)]; rfl
  | 1, _ =>
    have hone : Text.endsWith (t ++ List.replicate 1 equals) "=" = true := List.isSuffixOf_iff_suffix.mpr ⟨t, rfl⟩
    have hno : Text.endsWith (t ++ List.replicate 1 equals) "==" = false := by
      rw [Text.endsWith, Bool.eq_false_iff]
      intro hsuffix
      obtain ⟨before, heq⟩ := List.isSuffixOf_iff_suffix.mp hsuffix
      rw [show Text.of "==" = [equals] ++ [equals] from rfl, ← List.append_assoc, List.replicate_one,
        List.append_cancel_right_eq] at heq
      exact h (heq ▸ List.mem_append_right _ (List.mem_singleton_self _))
    rw [hno, hone, if_neg Bool.false_ne_true, if_pos rfl, List.replicate_one, List.dropLast_concat]
  | 2, _ =>
    have htwo : Text.endsWith (t ++ List.replicate 2 equals) "==" = true := List.isSuffixOf_iff_suffix.mpr ⟨t, rfl⟩
    have hsplit : t ++ List.replicate 2 equals = t ++ [equals] ++ [equals] := by simp [List.replicate]
    rw [htwo, if_pos rfl, hsplit, List.dropLast_concat, List.dropLast_concat]

theorem atob_padded {values : List Nat} (hlt : ∀ v ∈ values, v < 64) (hlen : values.length % 4 ≠ 1) :
    atob (values.map base64Char ++ List.replicate ((4 - values.length % 4) % 4) equals) = some (bytesOf values) := by
  have hchar : ∀ v < 64, base64Char v ∉ [9, 10, 12, 13, 32] ∧ base64Char v ≠ equals := by decide
  have hmark : equals ∉ [9, 10, 12, 13, 32] := by decide
  have hfilter : (values.map base64Char ++ List.replicate ((4 - values.length % 4) % 4) equals).filter (· ∉ [9, 10, 12, 13, 32]) =
      values.map base64Char ++ List.replicate ((4 - values.length % 4) % 4) equals := by
    rw [List.filter_eq_self]
    intro c hc
    rcases List.mem_append.mp hc with hc | hc
    · obtain ⟨v, hv, rfl⟩ := List.mem_map.mp hc
      exact decide_eq_true (hchar v (hlt v hv)).1
    · rw [(List.mem_replicate.mp hc).2]
      exact decide_eq_true hmark
  have hstrip : stripPadding (values.map base64Char ++ List.replicate ((4 - values.length % 4) % 4) equals) =
      values.map base64Char := by
    refine stripPadding_replicate ?_ (by omega)
    intro hmem
    obtain ⟨v, hv, heq⟩ := List.mem_map.mp hmem
    exact (hchar v (hlt v hv)).2 heq
  have hread : (values.map base64Char).mapM base64Value = some values := by
    clear hfilter hstrip hlen
    induction values with
    | nil => rfl
    | cons v values ih =>
      rw [List.map_cons, List.mapM_cons, base64Value_base64Char v (hlt v List.mem_cons_self),
        ih fun v hv => hlt v (List.mem_cons_of_mem _ hv)]
      rfl
  have hfour : (values.map base64Char ++ List.replicate ((4 - values.length % 4) % 4) equals).length % 4 = 0 := by
    rw [List.length_append, List.length_map, List.length_replicate]
    omega
  rw [atob, hfilter]
  simp only [hfour, if_true, hstrip, List.length_map, hlen, if_false, hread]
  rfl

theorem decode_encodeBase64 (h : ∀ u ∈ value, u < 0x10000) :
    decodeCacheKeySegment (encodeCacheKeySegment value) = some value ∧ separator ∉ encodeCacheKeySegment value := by
  obtain ⟨points, hscalar, hmark, hspelled⟩ := jsonQuote_spelled h
  have hbytes : ∀ b ∈ textEncode (jsonQuote value), b < 256 := by
    rw [textEncode]
    intro b hb
    obtain ⟨p, hp, hb⟩ := List.mem_flatMap.mp hb
    rw [hspelled, codePoints_flatMap_unitsOf hscalar] at hp
    rw [if_neg (hscalar p hp).not_surrogate] at hb
    exact Utf8.encode_lt (hscalar p hp).lt b hb
  have hlt := sextets_lt hbytes
  have hlen := sextets_length (textEncode (jsonQuote value))
  have hrestore : (encodeCacheKeySegment value).map ofUrlChar = (sextets (textEncode (jsonQuote value))).map base64Char := by
    rw [encodeCacheKeySegment_eq hlt rfl, List.map_map]
    exact List.map_congr_left fun v hv => ofUrlChar_toUrlChar v (hlt v hv)
  have hlength : (encodeCacheKeySegment value).length = (sextets (textEncode (jsonQuote value))).length := by
    rw [encodeCacheKeySegment_eq hlt rfl, List.length_map]
  have hall : ∀ c ∈ encodeCacheKeySegment value, isBase64Url c = true := by
    rw [encodeCacheKeySegment_eq hlt rfl]
    intro c hc
    obtain ⟨v, hv, rfl⟩ := List.mem_map.mp hc
    exact isBase64Url_toUrlChar v (hlt v hv)
  have hne : encodeCacheKeySegment value ≠ [] := by
    intro hnil
    have hread := bytesOf_sextets hbytes
    rw [hnil, List.length_nil] at hlength
    rw [List.eq_nil_of_length_eq_zero hlength.symm] at hread
    have hdecode := textDecode_textEncode hscalar hmark
    rw [← hspelled, ← hread] at hdecode
    cases hdecode
  refine ⟨?_, fun hmem => absurd (hall separator hmem) (by decide)⟩
  rw [decodeCacheKeySegment, if_neg]
  · have hdecode := textDecode_textEncode hscalar hmark
    rw [← hspelled] at hdecode
    rw [hrestore, hlength, atob_padded hlt hlen, bytesOf_sextets hbytes]
    simp only [Option.bind_eq_bind, Option.bind_some, hdecode, jsonString_jsonQuote h]
  · rw [hlength]
    simp only [not_or, not_not, List.all_eq_true]
    exact ⟨hne, hall, hlen⟩

/-! ## The codecs -/

/-- Each codec reads back every string, without a colon in what it writes, and what the literal
and the percent codec read is what they write. -/
theorem segment_codecs (value : List UInt16) :
    (decodeCacheKeyLiteralSegment (encodeCacheKeyLiteralSegment (.ofUnits value)) = some (.ofUnits value) ∧
        separator ∉ encodeCacheKeyLiteralSegment (.ofUnits value)) ∧
      (∃ encoded, encodeCacheKeyPercentSegment (.ofUnits value) = some encoded ∧
        decodeCacheKeyPercentSegment encoded = some (.ofUnits value) ∧ separator ∉ encoded) ∧
      (decodeCacheKeySegment (encodeCacheKeySegment (.ofUnits value)) = some (.ofUnits value) ∧
        separator ∉ encodeCacheKeySegment (.ofUnits value)) ∧
      (∀ encoded decoded, decodeCacheKeyLiteralSegment encoded = some decoded →
        encoded = encodeCacheKeyLiteralSegment decoded) ∧
      ∀ encoded decoded, decodeCacheKeyPercentSegment encoded = some decoded →
        encodeCacheKeyPercentSegment decoded = some encoded := by
  have hlt := @Text.ofUnits_lt value
  refine ⟨⟨decode_encodeLiteral hlt, colon_notMem_encodeLiteral hlt⟩,
    ⟨_, encodePercent_eq _, decode_encodePercent hlt, ?_⟩, decode_encodeBase64 hlt, ?_, ?_⟩
  · intro hmem
    obtain ⟨point, hpoint, hmem⟩ := List.mem_flatMap.mp hmem
    exact colon_notMem_percentPiece (codePoints_lt hlt point hpoint) hmem
  · intro encoded decoded h
    rw [decodeCacheKeyLiteralSegment] at h
    split at h
    · cases h
    · obtain ⟨decoded', -, h⟩ := Option.bind_eq_some_iff.mp h
      split at h
      · rename_i heq
        obtain rfl := Option.some.inj h
        exact heq.symm
      · cases h
  · intro encoded decoded h
    obtain ⟨decoded', -, h⟩ := Option.bind_eq_some_iff.mp h
    split at h
    · rename_i heq
      obtain rfl := Option.some.inj h
      exact heq
    · cases h

end Veryfront.Cache
