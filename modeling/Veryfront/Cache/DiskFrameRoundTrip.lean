import Veryfront.Cache.DiskFrame
import Veryfront.Cache.SegmentRoundTrip

/-!
# Disk frames read back

A written frame reads back, and what reads back was written so, up to the sign of an expiry of zero. Namespaces keep
their prefixes apart.
-/

namespace Veryfront.Cache.Disk

open Lib

/-! ## The length in UTF-8 -/

/-- As the encoder gives it. -/
def utf8Length (value : Text) : Nat := (textEncode value).length

theorem utf8Length_cons (point : Nat) {codeUnit : Nat} {rest units : Text}
    (h : codePoints (codeUnit :: rest) = point :: codePoints units) :
    utf8Length (codeUnit :: rest) = (Utf8.encode (if isSurrogate point then 0xFFFD else point)).length + utf8Length units := by
  rw [utf8Length, textEncode, h, List.flatMap_cons, List.length_append]
  rfl

theorem utf8Length_pair {high low : Nat} (hhigh : isHighSurrogate high = true) (hlow : isLowSurrogate low = true) (rest : Text) :
    utf8Length (high :: low :: rest) = 4 + utf8Length rest := by
  have hpoints : codePoints (high :: low :: rest) = pairPoint high low :: codePoints rest := by
    rw [codePoints, if_pos (by rw [hhigh, hlow]; rfl)]
  rw [isHighSurrogate_iff] at hhigh
  rw [isLowSurrogate_iff] at hlow
  have hno : isSurrogate (pairPoint high low) = false := by
    rw [Bool.eq_false_iff, ne_eq, isSurrogate_iff]
    unfold pairPoint
    omega
  have hlarge : ¬ pairPoint high low < 0x10000 := by unfold pairPoint; omega
  rw [utf8Length_cons _ hpoints, hno, if_neg Bool.false_ne_true, Utf8.length_encode, if_neg (by omega), if_neg (by omega),
    if_neg hlarge]

theorem utf8Length_unpaired {codeUnit : Nat} {rest : Text} (hunit : codeUnit < 0x10000)
    (h : (isHighSurrogate codeUnit && rest.head?.any isLowSurrogate) = false) :
    utf8Length (codeUnit :: rest) = (utf8Width codeUnit rest.head?).1 + utf8Length rest ∧
      (utf8Width codeUnit rest.head?).2 = false := by
  rw [utf8Length_cons _ (codePoints_cons_of_unpaired h), utf8Width, h, Utf8.length_encode]
  by_cases hsurrogate : isSurrogate codeUnit = true
  · have hrange := isSurrogate_iff.mp hsurrogate
    have h1 : ¬ codeUnit ≤ 0x7f := by omega
    have h2 : ¬ codeUnit ≤ 0x7ff := by omega
    simp [hsurrogate, h1, h2]
  · by_cases h1 : codeUnit < 0x80
    · have h1' : codeUnit ≤ 0x7f := by omega
      simp [hsurrogate, h1, h1']
    have h1' : ¬ codeUnit ≤ 0x7f := by omega
    by_cases h2 : codeUnit < 0x800
    · have h2' : codeUnit ≤ 0x7ff := by omega
      simp [hsurrogate, h1, h1', h2, h2']
    · have h2' : ¬ codeUnit ≤ 0x7ff := by omega
      simp [hsurrogate, h1, h1', h2, h2', hunit]

theorem utf8LengthWithin_eq {limit bytes : Nat} (hbytes : bytes ≤ limit) {value : Text} (h : ∀ u ∈ value, u < 0x10000) :
    utf8LengthWithin limit false bytes value =
      if bytes + utf8Length value ≤ limit then some (bytes + utf8Length value) else none := by
  induction hn : value.length using Nat.strong_induction_on generalizing bytes value with
  | h n ih =>
    cases value with
    | nil =>
      have hzero : utf8Length [] = 0 := rfl
      rw [hzero, Nat.add_zero, if_pos hbytes]
      rfl
    | cons codeUnit rest =>
      have hrest : ∀ u ∈ rest, u < 0x10000 := fun u hu => h u (List.mem_cons_of_mem _ hu)
      rw [utf8LengthWithin]
      by_cases hpair : (isHighSurrogate codeUnit && rest.head?.any isLowSurrogate) = true
      · cases rest with
        | nil => simp at hpair
        | cons next rest =>
          obtain ⟨hhigh, hlow⟩ := Bool.and_eq_true_iff.mp hpair
          have hrange := isHighSurrogate_iff.mp hhigh
          have hwidth : utf8Width codeUnit (next :: rest).head? = (4, true) := by
            rw [utf8Width, hpair, if_neg (by omega), if_neg (by omega), if_pos rfl]
          rw [hwidth, utf8Length_pair hhigh hlow]
          simp only
          split
          · rename_i hfits
            rw [utf8LengthWithin, ih rest.length (by simp only [← hn, List.length_cons]; omega) hfits (fun u hu => hrest u (List.mem_cons_of_mem _ hu)) rfl,
              Nat.add_assoc]
          · rw [if_neg (by omega)]
      · obtain ⟨hlen, hsingle⟩ := utf8Length_unpaired (h codeUnit List.mem_cons_self) (Bool.eq_false_of_not_eq_true hpair)
        simp only [hsingle, hlen]
        split
        · rename_i hfits
          rw [ih rest.length (by simp [← hn]) hfits hrest rfl, Nat.add_assoc]
        · rw [if_neg (by omega)]

theorem utf8ByteLength_eq {value : Text} (h : ∀ u ∈ value, u < 0x10000) {stopAfter : Nat} (hle : utf8Length value ≤ stopAfter) :
    utf8ByteLength value stopAfter = utf8Length value := by
  rw [utf8ByteLength, utf8LengthWithin_eq (Nat.zero_le _) h, Nat.zero_add, if_pos hle]
  rfl

theorem utf8Length_bounds {value : Text} (h : ∀ u ∈ value, u < 0x10000) :
    value.length ≤ utf8Length value ∧ utf8Length value ≤ value.length * 3 := by
  induction hn : value.length using Nat.strong_induction_on generalizing value with
  | h n ih =>
    cases value with
    | nil => exact ⟨by simp [← hn], Nat.zero_le _⟩
    | cons codeUnit rest =>
      have hrest : ∀ u ∈ rest, u < 0x10000 := fun u hu => h u (List.mem_cons_of_mem _ hu)
      rw [List.length_cons] at hn
      by_cases hpair : (isHighSurrogate codeUnit && rest.head?.any isLowSurrogate) = true
      · cases rest with
        | nil => simp at hpair
        | cons next rest =>
          obtain ⟨hhigh, hlow⟩ := Bool.and_eq_true_iff.mp hpair
          rw [List.length_cons] at hn
          have hle := ih rest.length (by omega) (fun u hu => hrest u (List.mem_cons_of_mem _ hu)) rfl
          rw [utf8Length_pair hhigh hlow]
          omega
      · obtain ⟨hlen, -⟩ := utf8Length_unpaired (h codeUnit List.mem_cons_self) (Bool.eq_false_of_not_eq_true hpair)
        have hle := ih rest.length (by omega) hrest rfl
        have hwidth : 1 ≤ (utf8Width codeUnit rest.head?).1 ∧ (utf8Width codeUnit rest.head?).1 ≤ 3 := by
          rw [utf8Width, Bool.eq_false_of_not_eq_true hpair]
          split
          · decide
          split <;> decide
        omega

/-! ## Code units -/

theorem decode_writeUtf16CodeUnits (value : Text) : decodeUtf16CodeUnits (writeUtf16CodeUnits value) = value := by
  induction value with
  | nil => rfl
  | cons codeUnit value ih =>
    have hsum : 256 * (codeUnit / 256) + codeUnit % 256 = codeUnit := Nat.div_add_mod _ _
    rw [writeUtf16CodeUnits, List.flatMap_cons, List.cons_append, List.singleton_append, decodeUtf16CodeUnits, hsum]
    exact congrArg _ ih

theorem length_writeUtf16CodeUnits (value : Text) : (writeUtf16CodeUnits value).length = value.length * 2 := by
  simp [writeUtf16CodeUnits, List.length_flatMap]

theorem write_decodeUtf16CodeUnits {n : Nat} {bytes : List Nat} (h : ∀ b ∈ bytes, b < 256) (hlen : bytes.length = n * 2) :
    writeUtf16CodeUnits (decodeUtf16CodeUnits bytes) = bytes ∧ (decodeUtf16CodeUnits bytes).length = n ∧
      ∀ u ∈ decodeUtf16CodeUnits bytes, u < 0x10000 := by
  induction n generalizing bytes with
  | zero =>
    obtain rfl := List.length_eq_zero_iff.mp hlen
    exact ⟨rfl, rfl, fun _ hu => nomatch hu⟩
  | succ n ih =>
    match bytes, hlen with
    | [_], hlen => exact absurd hlen (by simp; omega)
    | high :: low :: bytes, hlen =>
      have hhigh := h high (by simp)
      have hlow := h low (by simp)
      have hbytes : ∀ b ∈ bytes, b < 256 := fun b hb => h b (by simp [hb])
      obtain ⟨hwrite, hcount, hlt⟩ := ih hbytes (by simpa [Nat.succ_mul] using hlen)
      have hdiv : (256 * high + low) / 256 = high := by omega
      have hmod : (256 * high + low) % 256 = low := by omega
      refine ⟨?_, congrArg (· + 1) hcount, ?_⟩
      · rw [decodeUtf16CodeUnits, writeUtf16CodeUnits, List.flatMap_cons, hdiv, hmod]
        exact congrArg (fun t => high :: low :: t) hwrite
      · intro u hu
        rcases List.mem_cons.mp hu with rfl | hu
        · omega
        · exact hlt u hu

/-! ## Headers -/

def headerBytes (keyCodeUnits valueCodeUnits valueUtf8Bytes bits : Nat) : List Nat :=
  frameMagic ++ BigEndian.write 8 keyCodeUnits ++ BigEndian.write 8 valueCodeUnits ++ BigEndian.write 8 valueUtf8Bytes ++
    BigEndian.write 8 bits

theorem length_headerBytes (k v u bits : Nat) : (headerBytes k v u bits).length = frameHeaderBytes := by
  simp only [headerBytes, List.length_append, BigEndian.length_write]
  rfl

theorem headerBytes_fields (k v u bits : Nat) :
    (headerBytes k v u bits).take 8 = frameMagic ∧
      ((headerBytes k v u bits).drop 8).take 8 = BigEndian.write 8 k ∧
      ((headerBytes k v u bits).drop 16).take 8 = BigEndian.write 8 v ∧
      ((headerBytes k v u bits).drop 24).take 8 = BigEndian.write 8 u ∧
      ((headerBytes k v u bits).drop 32).take 8 = BigEndian.write 8 bits := by
  have hfield : ∀ before field after : List Nat, field.length = 8 →
      ((before ++ (field ++ after)).drop before.length).take 8 = field := by
    intro before field after hlen
    rw [List.drop_left, ← hlen, List.take_left]
  have hmagic : frameMagic.length = 8 := rfl
  refine ⟨?_, ?_, ?_, ?_, ?_⟩
  · simp [headerBytes, ← hmagic]
  · simp [headerBytes, hmagic]
  · have h := hfield (frameMagic ++ BigEndian.write 8 k) (BigEndian.write 8 v) (BigEndian.write 8 u ++ BigEndian.write 8 bits)
      (BigEndian.length_write _ _)
    simpa [headerBytes, hmagic] using h
  · have h := hfield (frameMagic ++ BigEndian.write 8 k ++ BigEndian.write 8 v) (BigEndian.write 8 u) (BigEndian.write 8 bits)
      (BigEndian.length_write _ _)
    simpa [headerBytes, hmagic] using h
  · have h := hfield (frameMagic ++ BigEndian.write 8 k ++ BigEndian.write 8 v ++ BigEndian.write 8 u) (BigEndian.write 8 bits) []
      (BigEndian.length_write _ _)
    simpa [headerBytes, hmagic] using h

theorem getSafeUint64_write {n : Nat} (h : n ≤ maxSafeInteger) : getSafeUint64 (BigEndian.write 8 n) = some n := by
  have hlt : n < 256 ^ 8 := Nat.lt_of_le_of_lt h (by decide)
  rw [getSafeUint64, BigEndian.read_write hlt, if_pos h]

theorem ofBits_bits (d : Double) : Double.ofBits d.bits = d := by
  cases d with
  | mk bits lt => exact Double.mk.injEq _ _ _ _ ▸ Nat.mod_eq_of_lt lt

theorem expiry_field {expiresAt : Option Double} (h : ∀ d ∈ expiresAt, d.PositiveFinite) :
    Double.ofBits (BigEndian.read (BigEndian.write 8 (expiresAt.getD .zero).bits)) = expiresAt.getD .zero ∧
      (expiresAt.getD .zero).isFinite = true ∧ (expiresAt.getD .zero).isNegative = false ∧
      (if (expiresAt.getD .zero).isZero then none else some (expiresAt.getD .zero)) = expiresAt := by
  have hread : Double.ofBits (BigEndian.read (BigEndian.write 8 (expiresAt.getD .zero).bits)) = expiresAt.getD .zero := by
    rw [BigEndian.read_write (Nat.lt_of_lt_of_le (expiresAt.getD .zero).lt (by decide)), ofBits_bits]
  cases expiresAt with
  | none => exact ⟨hread, by decide, by decide, by decide⟩
  | some d =>
    obtain ⟨hfinite, hnonzero, hnonnegative⟩ := h d rfl
    exact ⟨hread, hfinite, Bool.eq_false_of_not_eq_true hnonnegative, by simp [hnonzero]⟩

theorem parseHeader_headerBytes {k v u maximum : Nat} {expiresAt : Option Double} (hk : k ≤ maxCacheKeyCodeUnits)
    (hu : u ≤ maximum) (hmaximum : maximum ≤ maxConfiguredValueBytes) (hv : v ≤ u) (hv3 : u ≤ v * 3)
    (hexpiry : ∀ d ∈ expiresAt, d.PositiveFinite) :
    parseHeader (headerBytes k v u (expiresAt.getD .zero).bits) maximum =
      some ⟨k, v, u, expiresAt, frameHeaderBytes + k * 2 + v * 2⟩ := by
  obtain ⟨hmagic, hkey, hvalue, hutf8, hexpires⟩ := headerBytes_fields k v u (expiresAt.getD .zero).bits
  obtain ⟨hread, hfinite, hnonnegative, hzero⟩ := expiry_field hexpiry
  have hlimits : maxCacheKeyCodeUnits = 65536 ∧ maxConfiguredValueBytes = 536870912 ∧ maxSafeInteger = 9007199254740991 ∧
      frameHeaderBytes = 40 := by decide
  have hframed : framedFileBytes k v = some (frameHeaderBytes + k * 2 + v * 2) := if_pos (by omega)
  rw [parseHeader, if_neg (by simp [length_headerBytes, hmagic]), hkey, hvalue, hutf8, hexpires, getSafeUint64_write (by omega),
    getSafeUint64_write (by omega), getSafeUint64_write (by omega), hread]
  simp only [Option.bind_eq_bind, Option.bind_some]
  rw [if_neg (by simp [hfinite, hnonnegative]; omega), hframed, hzero]
  rfl

theorem field_lt {bytes : List Nat} (h : ∀ b ∈ bytes, b < 256) (offset length : Nat) :
    ∀ b ∈ (bytes.drop offset).take length, b < 256 :=
  fun b hb => h b (List.mem_of_mem_drop (List.mem_of_mem_take hb))

theorem write_read_field {bytes : List Nat} (h : ∀ b ∈ bytes, b < 256) {offset : Nat} (hlen : offset + 8 ≤ bytes.length) :
    BigEndian.write 8 (BigEndian.read ((bytes.drop offset).take 8)) = (bytes.drop offset).take 8 := by
  have hfield : ((bytes.drop offset).take 8).length = 8 := by
    rw [List.length_take, List.length_drop]
    omega
  have hwrite := BigEndian.write_read (field_lt h offset 8)
  rwa [hfield] at hwrite

/-- An accepted header is made of its fields. The expiry is that of the last field unless this is a zero. -/
structure HeaderRead (bytes : List Nat) (maximum : Nat) (header : FramedHeader) (expiry : Double) : Prop where
  bytes : bytes = headerBytes header.keyCodeUnits header.valueCodeUnits header.valueUtf8Bytes expiry.bits
  safe : header.keyCodeUnits ≤ maxSafeInteger ∧ header.valueCodeUnits ≤ maxSafeInteger ∧ header.valueUtf8Bytes ≤ maxSafeInteger
  valueUtf8Bytes : header.valueUtf8Bytes ≤ maximum
  fileBytes : framedFileBytes header.keyCodeUnits header.valueCodeUnits = some header.fileBytes
  expiresAt : header.expiresAt = if expiry.isZero then none else some expiry

theorem parseHeader_spec {bytes : List Nat} {maximum : Nat} {header : FramedHeader} (hbytes : ∀ b ∈ bytes, b < 256)
    (h : parseHeader bytes maximum = some header) :
    ∃ expiry : Double, HeaderRead bytes maximum header expiry := by
  rw [parseHeader] at h
  split at h
  · cases h
  rename_i hframe
  obtain ⟨hlen, hmagic⟩ := not_or.mp hframe
  rw [not_not] at hlen hmagic
  have hforty : bytes.length = 40 := hlen
  obtain ⟨k, hk, h⟩ := Option.bind_eq_some_iff.mp h
  obtain ⟨v, hv, h⟩ := Option.bind_eq_some_iff.mp h
  obtain ⟨u, hu, h⟩ := Option.bind_eq_some_iff.mp h
  simp only at h
  split at h
  · cases h
  rename_i hchecks
  obtain ⟨fileBytes, hfile, h⟩ := Option.bind_eq_some_iff.mp h
  obtain rfl := Option.some.inj h
  have hsafe : ∀ {field n}, getSafeUint64 field = some n → BigEndian.read field = n ∧ n ≤ maxSafeInteger := by
    intro field n hread
    rw [getSafeUint64] at hread
    split at hread
    · rename_i hle
      obtain rfl := Option.some.inj hread
      exact ⟨rfl, hle⟩
    · cases hread
  have hexpiry : BigEndian.read ((bytes.drop 32).take 8) < 2 ^ 64 := by
    have hfield : ((bytes.drop 32).take 8).length = 8 := by
      rw [List.length_take, List.length_drop]
      omega
    have hlt := BigEndian.read_lt (field_lt hbytes 32 8)
    rwa [hfield] at hlt
  refine ⟨.ofBits (BigEndian.read ((bytes.drop 32).take 8)), ?_, ⟨(hsafe hk).2, (hsafe hv).2, (hsafe hu).2⟩, ?_, hfile, rfl⟩
  · have hsplit : bytes = bytes.take 8 ++ ((bytes.drop 8).take 8 ++ ((bytes.drop 16).take 8 ++ ((bytes.drop 24).take 8 ++
        (bytes.drop 32).take 8))) := by
      have hjoin : ∀ n, n ≤ 40 → bytes.drop n = (bytes.drop n).take 8 ++ bytes.drop (n + 8) := by
        intro n _
        rw [← List.drop_drop, List.take_append_drop]
      have hend : (bytes.drop 32).take 8 = bytes.drop 32 := List.take_of_length_le (by rw [List.length_drop]; omega)
      rw [hend, ← hjoin 24 (by decide), ← hjoin 16 (by decide), ← hjoin 8 (by decide), List.take_append_drop]
    have hbits : (Double.ofBits (BigEndian.read ((bytes.drop 32).take 8))).bits = BigEndian.read ((bytes.drop 32).take 8) :=
      Nat.mod_eq_of_lt hexpiry
    rw [headerBytes, hbits, ← (hsafe hk).1, ← (hsafe hv).1, ← (hsafe hu).1, write_read_field hbytes (by omega),
      write_read_field hbytes (by omega), write_read_field hbytes (by omega), write_read_field hbytes (by omega), ← hmagic,
      List.append_assoc, List.append_assoc, List.append_assoc]
    exact hsplit
  · simp only [not_or, Nat.not_lt] at hchecks
    exact hchecks.2.1

/-! ## Files -/

theorem encodeEnvelope_eq {key value : Text} {u : Nat} {expiresAt : Option Double} {fileBytes : Nat}
    (hsafe : key.length ≤ maxSafeInteger ∧ value.length ≤ maxSafeInteger ∧ u ≤ maxSafeInteger)
    (hfile : framedFileBytes key.length value.length = some fileBytes) :
    encodeEnvelope key value u expiresAt =
      some (headerBytes key.length value.length u (expiresAt.getD .zero).bits ++ writeUtf16CodeUnits key ++
        writeUtf16CodeUnits value) := by
  obtain ⟨hk, hv, hu⟩ := hsafe
  rw [encodeEnvelope, hfile, setSafeUint64, setSafeUint64, setSafeUint64, if_pos hk, if_pos hv, if_pos hu]
  rfl

theorem readExactly_append (before bytes after : List Nat) :
    readExactly (before ++ bytes ++ after) bytes.length before.length = .ok bytes := by
  have htake : ((before ++ bytes ++ after).drop before.length).take bytes.length = bytes := by
    rw [List.append_assoc, List.drop_left, List.take_left]
  rw [readExactly, htake, if_pos rfl]

theorem orInvalid_eq_ok {α : Type} {o : Option α} {a : α} : orInvalid o = .ok a ↔ o = some a := by
  cases o <;> simp [orInvalid]

theorem bind_eq_ok {α β : Type} {x : Except ReadError α} {f : α → Except ReadError β} {b : β} :
    x >>= f = .ok b ↔ ∃ a, x = .ok a ∧ f a = .ok b := by
  cases x with
  | error e => exact ⟨nofun, fun ⟨_, h, _⟩ => nomatch h⟩
  | ok a => exact ⟨fun h => ⟨a, rfl, h⟩, fun ⟨_, rfl, h⟩ => h⟩

theorem readExactly_eq_ok {file bytes : List Nat} {length offset : Nat} (h : readExactly file length offset = .ok bytes) :
    bytes = (file.drop offset).take length ∧ bytes.length = length := by
  rw [readExactly] at h
  split at h
  · rename_i hlen
    obtain rfl := Except.ok.inj h
    exact ⟨rfl, hlen⟩
  · cases h

section Frames

variable (limits : DiskLimits)

theorem framedFileBytes_max :
    framedFileBytes maxCacheKeyCodeUnits limits.maxValueBytes =
      some (frameHeaderBytes + maxCacheKeyCodeUnits * 2 + limits.maxValueBytes * 2) := by
  have hle := limits.le
  have hlimits : maxCacheKeyCodeUnits = 65536 ∧ maxConfiguredValueBytes = 536870912 ∧ maxSafeInteger = 9007199254740991 ∧
      frameHeaderBytes = 40 := by decide
  exact if_pos (by omega)

theorem readFramedFile_encodeEnvelope {key value : Text} {expiresAt : Option Double} (hvalue : ∀ u ∈ value, u < 0x10000)
    (hkeyLength : key.length ≤ maxCacheKeyCodeUnits) (hvalueLength : utf8Length value ≤ limits.maxValueBytes)
    (hexpiry : ∀ d ∈ expiresAt, d.PositiveFinite) :
    ∃ content, encodeEnvelope key value (utf8ByteLength value limits.maxValueBytes) expiresAt = some content ∧
      parseHeader (content.take frameHeaderBytes) limits.maxValueBytes =
        some ⟨key.length, value.length, utf8Length value, expiresAt, content.length⟩ ∧
      ∀ reached expectedKey maximumValueBytes, (∀ d ∈ expiresAt, reached d = false) → (∀ k ∈ expectedKey, k = key) →
        (∀ maximum ∈ maximumValueBytes, utf8Length value ≤ maximum) →
          readFramedFile limits reached content expectedKey maximumValueBytes true = .ok ⟨key, some value, expiresAt⟩ := by
  have hmax := limits.le
  obtain ⟨hle, hle3⟩ := utf8Length_bounds hvalue
  have hlimits : maxCacheKeyCodeUnits = 65536 ∧ maxConfiguredValueBytes = 536870912 ∧ maxSafeInteger = 9007199254740991 ∧
      frameHeaderBytes = 40 := by decide
  have hframed : framedFileBytes key.length value.length = some (frameHeaderBytes + key.length * 2 + value.length * 2) :=
    if_pos (by omega)
  have hencode := @encodeEnvelope_eq key value _ expiresAt _
    (show key.length ≤ maxSafeInteger ∧ value.length ≤ maxSafeInteger ∧ utf8Length value ≤ maxSafeInteger by omega) hframed
  generalize hbits : (expiresAt.getD .zero).bits = bits at hencode
  have hheader : (headerBytes key.length value.length (utf8Length value) bits).length = frameHeaderBytes :=
    length_headerBytes _ _ _ _
  have hparse : parseHeader (headerBytes key.length value.length (utf8Length value) bits) limits.maxValueBytes =
      some ⟨key.length, value.length, utf8Length value, expiresAt, frameHeaderBytes + key.length * 2 + value.length * 2⟩ := by
    rw [← hbits]
    exact parseHeader_headerBytes hkeyLength hvalueLength hmax hle hle3 hexpiry
  generalize headerBytes key.length value.length (utf8Length value) bits = header at hencode hheader hparse
  have hlength : (header ++ writeUtf16CodeUnits key ++ writeUtf16CodeUnits value).length =
      frameHeaderBytes + key.length * 2 + value.length * 2 := by
    rw [List.length_append, List.length_append, hheader, length_writeUtf16CodeUnits, length_writeUtf16CodeUnits]
  have hreadHeader := readExactly_append [] header (writeUtf16CodeUnits key ++ writeUtf16CodeUnits value)
  have hreadKey := readExactly_append header (writeUtf16CodeUnits key) (writeUtf16CodeUnits value)
  have hreadValue := readExactly_append (header ++ writeUtf16CodeUnits key) (writeUtf16CodeUnits value) []
  rw [List.nil_append, ← List.append_assoc, hheader, List.length_nil] at hreadHeader
  rw [hheader, length_writeUtf16CodeUnits] at hreadKey
  rw [List.append_nil, List.length_append, hheader, length_writeUtf16CodeUnits, length_writeUtf16CodeUnits] at hreadValue
  rw [utf8ByteLength_eq hvalue hvalueLength]
  refine ⟨_, hencode, ?_, ?_⟩
  · rw [hlength, List.append_assoc, ← hheader, List.take_left, hheader]
    exact hparse
  · intro reached expectedKey maximumValueBytes hreached hexpected hmaximum
    have hmeasure : measureUtf8FromUtf16CodeUnits (writeUtf16CodeUnits value) = some (utf8Length value) := by
      rw [measureUtf8FromUtf16CodeUnits, decode_writeUtf16CodeUnits, utf8LengthWithin_eq (Nat.zero_le _) hvalue, Nat.zero_add,
        if_pos (by omega)]
    have hkeys : expectedKey.any (· ≠ key) = false := by
      cases expectedKey with
      | none => rfl
      | some k => simp [hexpected k rfl]
    have hclock : expiresAt.any reached = false := by
      cases expiresAt with
      | none => rfl
      | some d => exact hreached d rfl
    have hsmall : maximumValueBytes.any (· < utf8Length value) = false := by
      cases maximumValueBytes with
      | none => rfl
      | some maximum => simpa using hmaximum maximum rfl
    rw [readFramedFile, framedFileBytes_max, orInvalid, hlength]
    simp only [bind, Except.bind]
    rw [if_neg (by omega), hreadHeader]
    simp only [hparse, orInvalid, ne_eq, not_true_eq_false, if_false, hreadKey, decode_writeUtf16CodeUnits, hkeys, hclock, hsmall,
      Bool.not_true, Bool.or_self, Bool.false_eq_true, hreadValue, hmeasure]

structure FrameRead (file : List Nat) (envelope : DiskCacheEnvelope) (value : Text) (header : FramedHeader) : Prop where
  parsed : parseHeader (file.take frameHeaderBytes) limits.maxValueBytes = some header
  fileBytes : header.fileBytes = file.length
  key : envelope.key = decodeUtf16CodeUnits ((file.drop frameHeaderBytes).take (header.keyCodeUnits * 2))
  decoded : value =
    decodeUtf16CodeUnits ((file.drop (frameHeaderBytes + header.keyCodeUnits * 2)).take (header.valueCodeUnits * 2))
  valueUtf8Bytes : utf8LengthWithin maxSafeInteger false 0 value = some header.valueUtf8Bytes
  expiresAt : envelope.expiresAt = header.expiresAt

theorem readFramedFile_spec {reached : Double → Bool} {file : List Nat} {expectedKey : Option Text}
    {maximumValueBytes : Option Nat} {includeValue : Bool} {envelope : DiskCacheEnvelope} {value : Text}
    (h : readFramedFile limits reached file expectedKey maximumValueBytes includeValue = .ok envelope)
    (hvalue : envelope.value = some value) :
    ∃ header, FrameRead limits file envelope value header := by
  rw [readFramedFile, framedFileBytes_max, orInvalid] at h
  obtain ⟨_, -, h⟩ := bind_eq_ok.mp h
  split at h
  · cases h
  obtain ⟨headerBytes, hheaderBytes, h⟩ := bind_eq_ok.mp h
  obtain ⟨header, hheader, h⟩ := bind_eq_ok.mp h
  split at h
  · cases h
  rename_i hlength
  obtain ⟨keyBytes, hkeyBytes, h⟩ := bind_eq_ok.mp h
  obtain ⟨rfl, -⟩ := readExactly_eq_ok hheaderBytes
  obtain ⟨rfl, -⟩ := readExactly_eq_ok hkeyBytes
  simp only at h
  split at h
  · obtain rfl := Except.ok.inj h
    cases hvalue
  split at h
  · cases h
  obtain ⟨valueBytes, hvalueBytes, h⟩ := bind_eq_ok.mp h
  obtain ⟨rfl, -⟩ := readExactly_eq_ok hvalueBytes
  split at h
  · cases h
  rename_i hmeasure
  obtain rfl := Except.ok.inj h
  obtain rfl := Option.some.inj hvalue
  exact ⟨header, orInvalid_eq_ok.mp hheader, not_not.mp hlength, rfl, rfl, not_not.mp hmeasure, rfl⟩

theorem isZero_bits {d : Double} (h : d.isZero = true) : d.bits = 0 ∨ d.bits = 2 ^ 63 := by
  have hlt := d.lt
  have hmod : d.bits % 2 ^ 63 = 0 := of_decide_eq_true h
  omega

theorem headerBytes_negativeZero (k v u : Nat) (rest : List Nat) :
    headerBytes k v u (2 ^ 63) ++ rest = (headerBytes k v u 0 ++ rest).set 32 0x80 := by
  have hbefore : (frameMagic ++ BigEndian.write 8 k ++ BigEndian.write 8 v ++ BigEndian.write 8 u).length = 32 := by
    simp only [List.length_append, BigEndian.length_write]
    rfl
  have hzero : BigEndian.write 8 (2 ^ 63) = (BigEndian.write 8 0).set 0 0x80 := by decide
  rw [headerBytes, headerBytes, hzero, List.append_assoc, List.append_assoc _ _ rest,
    List.set_append_right _ _ (Nat.le_of_eq hbefore), hbefore, Nat.sub_self, List.set_append_left _ _ (by simp)]

theorem encodeEnvelope_readFramedFile {reached : Double → Bool} {file : List Nat} {expectedKey : Option Text}
    {maximumValueBytes : Option Nat} {includeValue : Bool} {envelope : DiskCacheEnvelope} {value : Text}
    (hfile : ∀ b ∈ file, b < 256)
    (h : readFramedFile limits reached file expectedKey maximumValueBytes includeValue = .ok envelope)
    (hvalue : envelope.value = some value) :
    ∃ content, encodeEnvelope envelope.key value (utf8ByteLength value limits.maxValueBytes) envelope.expiresAt = some content ∧
      (file = content ∨ envelope.expiresAt = none ∧ file = content.set 32 0x80) := by
  obtain ⟨header, hread⟩ := readFramedFile_spec limits h hvalue
  obtain ⟨expiry, hheader⟩ := parseHeader_spec (fun b hb => hfile b (List.mem_of_mem_take hb)) hread.parsed
  obtain ⟨hk, hv, hu⟩ := hheader.safe
  have hforty : frameHeaderBytes = 40 := rfl
  have hbytes : header.fileBytes = frameHeaderBytes + header.keyCodeUnits * 2 + header.valueCodeUnits * 2 := by
    have hframed := hheader.fileBytes
    rw [framedFileBytes] at hframed
    split at hframed
    · exact (Option.some.inj hframed).symm
    · cases hframed
  rw [hread.fileBytes] at hbytes
  -- the three parts of the file
  have hsplit : file = file.take frameHeaderBytes ++ (file.drop frameHeaderBytes).take (header.keyCodeUnits * 2) ++
      (file.drop (frameHeaderBytes + header.keyCodeUnits * 2)).take (header.valueCodeUnits * 2) := by
    have hend : (file.drop (frameHeaderBytes + header.keyCodeUnits * 2)).take (header.valueCodeUnits * 2) =
        file.drop (frameHeaderBytes + header.keyCodeUnits * 2) :=
      List.take_of_length_le (by rw [List.length_drop]; omega)
    rw [hend, List.append_assoc, ← List.drop_drop, List.take_append_drop, List.take_append_drop]
  obtain ⟨hwriteKey, hkeyLength, -⟩ := write_decodeUtf16CodeUnits (n := header.keyCodeUnits)
    (field_lt hfile frameHeaderBytes (header.keyCodeUnits * 2)) (by rw [List.length_take, List.length_drop]; omega)
  obtain ⟨hwriteValue, hvalueLength, hlt⟩ := write_decodeUtf16CodeUnits (n := header.valueCodeUnits)
    (field_lt hfile (frameHeaderBytes + header.keyCodeUnits * 2) (header.valueCodeUnits * 2))
    (by rw [List.length_take, List.length_drop]; omega)
  rw [← hread.key] at hwriteKey hkeyLength
  rw [← hread.decoded] at hwriteValue hvalueLength hlt
  have hutf8 : utf8Length value = header.valueUtf8Bytes := by
    have hmeasure := hread.valueUtf8Bytes
    rw [utf8LengthWithin_eq (Nat.zero_le _) hlt, Nat.zero_add] at hmeasure
    split at hmeasure
    · exact Option.some.inj hmeasure
    · cases hmeasure
  rw [utf8ByteLength_eq hlt (hutf8 ▸ hheader.valueUtf8Bytes), hutf8]
  refine ⟨_, encodeEnvelope_eq ⟨hkeyLength ▸ hk, hvalueLength ▸ hv, hu⟩ (hkeyLength ▸ hvalueLength ▸ hheader.fileBytes), ?_⟩
  rw [hkeyLength, hvalueLength, hwriteKey, hwriteValue, hread.expiresAt, hheader.expiresAt]
  rw [hheader.bytes] at hsplit
  by_cases hzero : expiry.isZero = true
  · have hnone : ((none : Option Double).getD .zero).bits = 0 := rfl
    rw [if_pos hzero, hnone]
    rcases isZero_bits hzero with hbits | hbits
    · rw [hbits] at hsplit
      exact .inl hsplit
    · rw [hbits, List.append_assoc, headerBytes_negativeZero, ← List.append_assoc] at hsplit
      exact .inr ⟨rfl, hsplit⟩
  · rw [if_neg hzero]
    exact .inl hsplit

end Frames

/-! ## Namespaces -/

/-- What the names are made of. No two of these differ by case only. -/
def IsNamespaceUnit (c : Nat) : Prop := isPortableNamespaceChar c = true ∨ c = tilde

theorem isPortableNamespaceChar_iff {c : Nat} :
    isPortableNamespaceChar c = true ↔ 97 ≤ c ∧ c ≤ 122 ∨ 48 ≤ c ∧ c ≤ 57 ∨ c = 95 ∨ c = 45 := by
  simp [isPortableNamespaceChar, or_assoc]

theorem not_isPortableNamespaceChar_tilde : ¬ isPortableNamespaceChar tilde = true := by decide

theorem upperCase_inj {c d : Nat} (hc : IsNamespaceUnit c) (hd : IsNamespaceUnit d) (h : upperCase c = upperCase d) : c = d := by
  rw [IsNamespaceUnit, isPortableNamespaceChar_iff, tilde] at hc hd
  rw [upperCase, upperCase] at h
  split at h <;> split at h <;> omega

theorem map_upperCase_inj {s t : Text} (hs : ∀ c ∈ s, IsNamespaceUnit c) (ht : ∀ c ∈ t, IsNamespaceUnit c)
    (h : s.map upperCase = t.map upperCase) : s = t := by
  induction s generalizing t with
  | nil => exact (List.map_eq_nil_iff.mp h.symm).symm
  | cons c s ih =>
    cases t with
    | nil => cases h
    | cons d t =>
      obtain ⟨hhead, htail⟩ := List.cons.inj h
      rw [upperCase_inj (hs c List.mem_cons_self) (ht d List.mem_cons_self) hhead,
        ih (fun c hc => hs c (List.mem_cons_of_mem _ hc)) (fun d hd => ht d (List.mem_cons_of_mem _ hd)) htail]

theorem isNamespaceUnit_escapeNamespaceChar {c : Nat} (hc : c < 0x10000) : ∀ u ∈ escapeNamespaceChar c, IsNamespaceUnit u := by
  intro u hu
  rw [escapeNamespaceChar] at hu
  split at hu
  · rename_i hportable
    obtain rfl := List.mem_singleton.mp hu
    exact .inl hportable
  · rw [padStart_toHex hc] at hu
    rcases List.mem_cons.mp hu with rfl | hu
    · exact .inr rfl
    · rw [IsNamespaceUnit, isPortableNamespaceChar_iff]
      have hrange := hexDigits_lowerHex_range hc u hu
      omega

theorem escapeNamespaceChar_append_inj {c d : Nat} {s t : Text} (hc : c < 0x10000) (hd : d < 0x10000)
    (h : escapeNamespaceChar c ++ s = escapeNamespaceChar d ++ t) : c = d ∧ s = t := by
  rw [escapeNamespaceChar, escapeNamespaceChar, padStart_toHex hc, padStart_toHex hd] at h
  split at h <;> split at h
  · exact List.cons.inj h
  · rename_i hportable _
    rw [(List.cons.inj h).1] at hportable
    exact absurd hportable not_isPortableNamespaceChar_tilde
  · rename_i hportable
    rw [← (List.cons.inj h).1] at hportable
    exact absurd hportable not_isPortableNamespaceChar_tilde
  · obtain ⟨hdigits, hrest⟩ := List.append_inj (List.cons.inj h).2 rfl
    have hread := congrArg parseHex hdigits
    rw [parseHex_hexDigits (fun _ h => hexDigit_lowerHex h) hc, parseHex_hexDigits (fun _ h => hexDigit_lowerHex h) hd] at hread
    exact ⟨hread, hrest⟩

theorem flatMap_escapeNamespaceChar_inj {s t : Text} (hs : ∀ c ∈ s, c < 0x10000) (ht : ∀ c ∈ t, c < 0x10000)
    (h : s.flatMap escapeNamespaceChar = t.flatMap escapeNamespaceChar) : s = t := by
  have hne : ∀ c, escapeNamespaceChar c ≠ [] := by
    intro c
    rw [escapeNamespaceChar]
    split <;> exact List.cons_ne_nil _ _
  induction s generalizing t with
  | nil =>
    cases t with
    | nil => rfl
    | cons d t => exact absurd (List.append_eq_nil_iff.mp h.symm).1 (hne d)
  | cons c s ih =>
    cases t with
    | nil => exact absurd (List.append_eq_nil_iff.mp h).1 (hne c)
    | cons d t =>
      obtain ⟨rfl, hrest⟩ := escapeNamespaceChar_append_inj (hs c List.mem_cons_self) (ht d List.mem_cons_self) h
      rw [ih (fun c hc => hs c (List.mem_cons_of_mem _ hc)) (fun d hd => ht d (List.mem_cons_of_mem _ hd)) hrest]

theorem encodeCacheNamespace_eq_some {keyPrefix name : Text} (h : encodeCacheNamespace keyPrefix = some name) :
    (name = keyPrefix ∧ keyPrefix.all isPortableNamespaceChar) ∨ name = tilde :: keyPrefix.flatMap escapeNamespaceChar := by
  rw [encodeCacheNamespace] at h
  split at h
  · rename_i hportable
    exact .inl ⟨(Option.some.inj h).symm, hportable.2.2⟩
  · simp only at h
    split at h
    · cases h
    · exact .inr (Option.some.inj h).symm

theorem isNamespaceUnit_encodeCacheNamespace {keyPrefix name : Text} (hstart : ∀ c ∈ keyPrefix, c < 0x10000)
    (h : encodeCacheNamespace keyPrefix = some name) : ∀ c ∈ name, IsNamespaceUnit c := by
  rcases encodeCacheNamespace_eq_some h with ⟨rfl, hportable⟩ | rfl
  · exact fun c hc => .inl (List.all_eq_true.mp hportable c hc)
  · intro c hc
    rcases List.mem_cons.mp hc with rfl | hc
    · exact .inr rfl
    · obtain ⟨unit, hunit, hc⟩ := List.mem_flatMap.mp hc
      exact isNamespaceUnit_escapeNamespaceChar (hstart unit hunit) c hc

theorem encodeCacheNamespace_inj {s t name : Text} (hs : ∀ c ∈ s, c < 0x10000) (ht : ∀ c ∈ t, c < 0x10000)
    (hsname : encodeCacheNamespace s = some name) (htname : encodeCacheNamespace t = some name) : s = t := by
  have hplain : ∀ {t : Text} {rest : Text}, t = tilde :: rest → t.all isPortableNamespaceChar → False := by
    rintro t rest rfl hportable
    exact not_isPortableNamespaceChar_tilde (List.all_eq_true.mp hportable _ List.mem_cons_self)
  rcases encodeCacheNamespace_eq_some hsname with ⟨rfl, hportable⟩ | rfl
  · rcases encodeCacheNamespace_eq_some htname with ⟨rfl, -⟩ | hname
    · rfl
    · exact (hplain hname hportable).elim
  · rcases encodeCacheNamespace_eq_some htname with ⟨hname, hportable⟩ | hname
    · exact (hplain hname.symm hportable).elim
    · exact flatMap_escapeNamespaceChar_inj hs ht (List.cons.inj hname).2

/-- Every key and value within the limits reads back with its expiry. A file that reads back in
full is the frame of what it gives, or this frame with a negative zero for an expiry. Prefixes have names of their own,
even in a file system that does not tell capitals from small letters. -/
theorem disk_frames (limits : DiskLimits) :
    (∀ (key value : List UInt16) (expiresAt : Option Double), key.length ≤ maxCacheKeyCodeUnits →
      utf8Length (.ofUnits value) ≤ limits.maxValueBytes → (∀ d ∈ expiresAt, d.PositiveFinite) →
        ∃ content,
          encodeEnvelope (.ofUnits key) (.ofUnits value) (utf8ByteLength (.ofUnits value) limits.maxValueBytes) expiresAt =
            some content ∧
          parseHeader (content.take frameHeaderBytes) limits.maxValueBytes =
            some ⟨key.length, value.length, utf8Length (.ofUnits value), expiresAt, content.length⟩ ∧
          ∀ reached expectedKey maximumValueBytes, (∀ d ∈ expiresAt, reached d = false) →
            (∀ k ∈ expectedKey, k = .ofUnits key) → (∀ maximum ∈ maximumValueBytes, utf8Length (.ofUnits value) ≤ maximum) →
              readFramedFile limits reached content expectedKey maximumValueBytes true =
                .ok ⟨.ofUnits key, some (.ofUnits value), expiresAt⟩) ∧
      (∀ (file : List UInt8) reached expectedKey maximumValueBytes includeValue envelope value,
        readFramedFile limits reached (file.map UInt8.toNat) expectedKey maximumValueBytes includeValue = .ok envelope →
          envelope.value = some value →
            ∃ content,
              encodeEnvelope envelope.key value (utf8ByteLength value limits.maxValueBytes) envelope.expiresAt = some content ∧
                (file.map UInt8.toNat = content ∨
                  envelope.expiresAt = none ∧ file.map UInt8.toNat = content.set 32 0x80)) ∧
      ∀ (s t : List UInt16) sname tname, encodeCacheNamespace (.ofUnits s) = some sname →
        encodeCacheNamespace (.ofUnits t) = some tname → sname.map upperCase = tname.map upperCase → s = t := by
  refine ⟨?_, ?_, ?_⟩
  · intro key value expiresAt hkey hvalue hexpiry
    have hkeyLength : (Text.ofUnits key).length = key.length := List.length_map _
    have hvalueLength : (Text.ofUnits value).length = value.length := List.length_map _
    rw [← hkeyLength, ← hvalueLength]
    exact readFramedFile_encodeEnvelope limits Text.ofUnits_lt (hkeyLength ▸ hkey) hvalue hexpiry
  · intro file reached expectedKey maximumValueBytes includeValue envelope value h hvalue
    refine encodeEnvelope_readFramedFile limits ?_ h hvalue
    intro b hb
    obtain ⟨byte, -, rfl⟩ := List.mem_map.mp hb
    exact byte.toNat_lt
  · intro s t sname tname hs ht h
    obtain rfl := map_upperCase_inj (isNamespaceUnit_encodeCacheNamespace Text.ofUnits_lt hs)
      (isNamespaceUnit_encodeCacheNamespace Text.ofUnits_lt ht) h
    exact List.map_injective_iff.mpr (fun _ _ => UInt16.toNat_inj.mp) (encodeCacheNamespace_inj Text.ofUnits_lt Text.ofUnits_lt hs ht)

/-- A lone surrogate under the key of one letter. -/
theorem disk_frames_loneSurrogate :
    ∃ content, encodeEnvelope [97] [0xD800] 3 none = some content ∧
      readFramedFile ⟨3, by decide, by decide⟩ (fun _ => true) content (some [97]) none true = .ok ⟨[97], some [0xD800], none⟩ := by
  obtain ⟨content, hencode, -, hread⟩ :=
    (disk_frames ⟨3, by decide, by decide⟩).1 [97] [0xD800] none (by decide) (by decide) (fun _ h => nomatch h)
  exact ⟨content, hencode, hread _ _ _ (fun _ h => nomatch h) (fun _ h => Option.some.inj h.symm) (fun _ h => nomatch h)⟩

/-- The frame of two empty texts, with the sign of its expiry set, reads back as the frame without the sign. -/
theorem disk_frames_negativeZero :
    ¬ ∀ (limits : DiskLimits) (file : List UInt8) reached expectedKey maximumValueBytes includeValue envelope value,
      readFramedFile limits reached (file.map UInt8.toNat) expectedKey maximumValueBytes includeValue = .ok envelope →
        envelope.value = some value →
          encodeEnvelope envelope.key value (utf8ByteLength value limits.maxValueBytes) envelope.expiresAt =
            some (file.map UInt8.toNat) := by
  intro h
  have hread := h ⟨1, by decide, by decide⟩
    [0x56, 0x46, 0x43, 0x41, 0x43, 0x48, 0x45, 0x34, 0, 0, 0, 0, 0, 0, 0, 0, 0, 0, 0, 0, 0, 0, 0, 0,
      0, 0, 0, 0, 0, 0, 0, 0, 0x80, 0, 0, 0, 0, 0, 0, 0]
    (fun _ => false) none none true ⟨[], some [], none⟩ [] (by decide) rfl
  revert hread
  decide

end Veryfront.Cache.Disk
