import Veryfront.Security.AddressLiterals

/-!
# Admission

What the guard hands on denotes an address that is reached from everywhere, but for leading zeros.
-/

namespace Veryfront.Security.Egress

open Lib Lib.Cidr Network

/-! ## Octets in base 8 -/

theorem isDigit_iff {c : Nat} : isDigit c = true ↔ 48 ≤ c ∧ c ≤ 57 := by
  rw [isDigit, Bool.and_eq_true, decide_eq_true_eq, decide_eq_true_eq]

theorem isOctalDigit_iff {c : Nat} : isOctalDigit c = true ↔ 48 ≤ c ∧ c ≤ 55 := by
  rw [isOctalDigit, Bool.and_eq_true, decide_eq_true_eq, decide_eq_true_eq]

variable {part : Text}

variable {n : Nat}

theorem octet_hundreds (h : Octet part n) (hn : 100 ≤ n) :
    part = [48 + n / 100, 48 + n / 10 % 10, 48 + n % 10] := by
  obtain ⟨⟨hpos, hle⟩, hdigits, rfl, -⟩ := h
  simp only [isDigit_iff] at hdigits
  match part, hpos, hle, hdigits with
  | [c], _, _, hdigits =>
    have hc := hdigits c (by simp)
    simp [parseDigits] at hn
    omega
  | [c, d], _, _, hdigits =>
    have hc := hdigits c (by simp)
    have hd := hdigits d (by simp)
    simp [parseDigits] at hn
    omega
  | [c, d, e], _, _, hdigits =>
    have hc := hdigits c (by simp)
    have hd := hdigits d (by simp)
    have he := hdigits e (by simp)
    have hvalue : parseDigits 10 [c, d, e] = 10 * (10 * (c - 48) + (d - 48)) + (e - 48) := by simp [parseDigits]
    rw [hvalue]
    simp only [List.cons.injEq, and_true]
    omega

theorem inetNumber_zero {digits : Text} (h : ∀ c ∈ digits, isDigit c = true) :
    inetNumber (48 :: digits) = if digits.all isOctalDigit then some (parseDigits 8 digits) else none := by
  unfold inetNumber
  split
  · rename_i heq
    cases heq
  · rename_i heq
    obtain rfl := (List.cons.inj heq).2
    exact absurd (h 120 List.mem_cons_self) (by decide)
  · rename_i heq
    obtain rfl := (List.cons.inj heq).2
    exact absurd (h 88 List.mem_cons_self) (by decide)
  · rename_i heq
    obtain rfl := (List.cons.inj heq).2
    rfl
  · rename_i hnot
    exact absurd rfl (hnot digits)

theorem inetNumber_nonzero {c : Nat} (hc : c ≠ 48) (digits : Text) :
    inetNumber (c :: digits) = if (c :: digits).all isDigit then some (parseDigits 10 (c :: digits)) else none := by
  unfold inetNumber
  split
  · rename_i heq
    cases heq
  · rename_i heq
    exact absurd (List.cons.inj heq).1 hc
  · rename_i heq
    exact absurd (List.cons.inj heq).1 hc
  · rename_i heq
    exact absurd (List.cons.inj heq).1 hc
  · rfl

/-- The same number, or another one with a leading zero. -/
inductive OctalReading : Text → (decimal octal : Nat) → Prop
  | same {part : Text} {n : Nat} : OctalReading part n n
  | other {y z : Nat} (hy : 1 ≤ y) (hy8 : y < 8) (hz : z < 8) :
    OctalReading [48, 48 + y, 48 + z] (10 * y + z) (8 * y + z)

theorem OctalReading.eq_of_le {m : Nat} (h : OctalReading part n m) (hm : 64 ≤ m) : n = m := by
  cases h with
  | same => rfl
  | other => omega

theorem octalReading_of_inetNumber {m : Nat} (h : Octet part n) (hm : inetNumber part = some m) :
    OctalReading part n m := by
  have hdigits := h.digits
  have hvalue := h.value
  obtain ⟨c, rest, rfl⟩ := List.exists_cons_of_ne_nil (List.length_pos_iff.mp h.length.1)
  by_cases hc : c = 48
  · subst hc
    rw [inetNumber_zero fun c hc => hdigits c (List.mem_cons_of_mem _ hc)] at hm
    split at hm
    · rename_i hall
      obtain rfl := Option.some.inj hm
      have hoctal := List.all_eq_true.mp hall
      simp only [isOctalDigit_iff] at hoctal
      have hlength := h.length.2
      match rest, hlength, hoctal with
      | [], _, _ =>
        subst hvalue
        exact .same
      | [d], _, hoctal =>
        subst hvalue
        have hread : parseDigits 10 [48, d] = parseDigits 8 [d] := by simp [parseDigits]
        rw [hread]
        exact .same
      | [d, e], _, hoctal =>
        have hd := hoctal d (by simp)
        have he := hoctal e (by simp)
        by_cases hzero : d = 48
        · subst hzero
          subst hvalue
          have hread : parseDigits 10 [48, 48, e] = parseDigits 8 [48, e] := by simp [parseDigits]
          rw [hread]
          exact .same
        · have hdecimal : parseDigits 10 [48, d, e] = 10 * (d - 48) + (e - 48) := by simp [parseDigits]
          have hbase8 : parseDigits 8 [d, e] = 8 * (d - 48) + (e - 48) := by simp [parseDigits]
          have hd48 : 48 + (d - 48) = d := by omega
          have he48 : 48 + (e - 48) = e := by omega
          have hother : OctalReading [48, 48 + (d - 48), 48 + (e - 48)] (10 * (d - 48) + (e - 48)) (8 * (d - 48) + (e - 48)) :=
            .other (by omega) (by omega) (by omega)
          rw [hd48, he48] at hother
          rwa [← hvalue, hdecimal, hbase8]
    · cases hm
  · rw [inetNumber_nonzero hc, if_pos (List.all_eq_true.mpr hdigits), hvalue] at hm
    obtain rfl := Option.some.inj hm
    exact .same

theorem inetNumber_of_octet (h : Octet part n)
    (hoctal : part.head? = some 48 → ∀ c ∈ part, isOctalDigit c = true) : ∃ m, inetNumber part = some m ∧ m ≤ n := by
  have hread : ∃ m, inetNumber part = some m := by
    have hdigits := h.digits
    obtain ⟨c, rest, rfl⟩ := List.exists_cons_of_ne_nil (List.length_pos_iff.mp h.length.1)
    by_cases hc : c = 48
    · subst hc
      rw [inetNumber_zero fun c hc => hdigits c (List.mem_cons_of_mem _ hc),
        if_pos (List.all_eq_true.mpr fun c hc => hoctal rfl c (List.mem_cons_of_mem _ hc))]
      exact ⟨_, rfl⟩
    · rw [inetNumber_nonzero hc, if_pos (List.all_eq_true.mpr hdigits)]
      exact ⟨_, rfl⟩
  obtain ⟨m, hm⟩ := hread
  refine ⟨m, hm, ?_⟩
  cases octalReading_of_inetNumber h hm with
  | same => exact Nat.le_refl _
  | other => omega

/-- Private by its first two octets. -/
def PrivatePair (a b : Nat) : Prop :=
  a = 10 ∨ a = 127 ∨ (a = 169 ∧ b = 254) ∨ (a = 172 ∧ 16 ≤ b ∧ b ≤ 31) ∨ (a = 192 ∧ b = 168) ∨ (a = 100 ∧ 64 ≤ b ∧ b ≤ 127) ∨
    (a = 198 ∧ (b = 18 ∨ b = 19))

/-- Private by its first three octets. -/
def PrivateTriple (a b c : Nat) : Prop :=
  (a = 192 ∧ b = 0 ∧ c = 0) ∨ (a = 192 ∧ b = 0 ∧ c = 2) ∨ (a = 192 ∧ b = 88 ∧ c = 99) ∨ (a = 198 ∧ b = 51 ∧ c = 100) ∨
    (a = 203 ∧ b = 0 ∧ c = 113)

theorem isPrivateIpv4_cases {a b c d : Nat} :
    isPrivateIpv4 [a, b, c, d] = true ↔ PrivatePair a b ∨ PrivateTriple a b c ∨ a = 0 ∨ 224 ≤ a := by
  simp only [isPrivateIpv4, PrivatePair, PrivateTriple, Bool.or_eq_true, Bool.and_eq_true, decide_eq_true_eq, or_assoc, and_assoc]

theorem privatePair_octal {a y z : Nat} (hy : 1 ≤ y) (hy8 : y < 8) (hz : z < 8) (h : PrivatePair a (8 * y + z)) :
    PrivatePair a (10 * y + z) ∨ (a = 172 ∧ y = 3 ∧ 2 ≤ z) ∨ a = 198 ∧ y = 2 ∧ (z = 2 ∨ z = 3) := by
  rcases h with rfl | rfl | ⟨rfl, hb⟩ | ⟨rfl, hb⟩ | ⟨rfl, hb⟩ | ⟨rfl, hb⟩ | ⟨rfl, hb⟩
  · exact .inl (.inl rfl)
  · exact .inl (.inr (.inl rfl))
  · omega
  · by_cases hdecimal : 10 * y + z ≤ 31
    · exact .inl (.inr (.inr (.inr (.inl ⟨rfl, by omega, hdecimal⟩))))
    · exact .inr (.inl ⟨rfl, by omega, by omega⟩)
  · omega
  · omega
  · exact .inr (.inr ⟨rfl, by omega, by omega⟩)

theorem octal_private {p q r : Text} {a b c a' b' c' : Nat} (hp : Octet p a) (hr : Octet r c)
    (ha : OctalReading p a a') (hb : OctalReading q b b') (hc : OctalReading r c c')
    (hpublic : ¬ (PrivatePair a b ∨ PrivateTriple a b c ∨ a = 0 ∨ 224 ≤ a))
    (hprivate : PrivatePair a' b' ∨ PrivateTriple a' b' c' ∨ a' = 0 ∨ 224 ≤ a') :
    p = .of "012" ∨
      (p = .of "172" ∧ q ∈ [Text.of "032", .of "033", .of "034", .of "035", .of "036", .of "037"]) ∨
      (p = .of "198" ∧ (q ∈ [Text.of "022", .of "023"] ∨ (q = .of "063" ∧ r = .of "100"))) := by
  cases ha with
  | @other y z hy hy8 hz =>
    have hten : 8 * y + z = 10 := by
      clear hpublic
      rcases hprivate with hpair | htriple | hfirst
      · rw [PrivatePair] at hpair
        omega
      · rw [PrivateTriple] at htriple
        omega
      · omega
    obtain ⟨rfl, rfl⟩ : y = 1 ∧ z = 2 := by omega
    exact .inl rfl
  | same =>
    cases hb with
    | @other y z hy hy8 hz =>
      rcases hprivate with hpair | htriple | hfirst
      · rcases privatePair_octal hy hy8 hz hpair with hpair | ⟨rfl, rfl, hz2⟩ | ⟨rfl, rfl, hz⟩
        · exact absurd (.inl hpair) hpublic
        · refine .inr (.inl ⟨octet_hundreds hp (by decide), ?_⟩)
          obtain rfl | rfl | rfl | rfl | rfl | rfl : z = 2 ∨ z = 3 ∨ z = 4 ∨ z = 5 ∨ z = 6 ∨ z = 7 := by omega
          all_goals decide
        · refine .inr (.inr ⟨octet_hundreds hp (by decide), .inl ?_⟩)
          rcases hz with rfl | rfl
          all_goals decide
      · obtain ⟨rfl, rfl, rfl, rfl⟩ : a = 198 ∧ y = 6 ∧ z = 3 ∧ c' = 100 := by
          clear hpublic
          rw [PrivateTriple] at htriple
          omega
        refine .inr (.inr ⟨octet_hundreds hp (by decide), .inr ⟨rfl, ?_⟩⟩)
        obtain rfl := hc.eq_of_le (by decide)
        exact octet_hundreds hr (by decide)
      · exact absurd (.inr (.inr hfirst)) hpublic
    | same =>
      cases hc with
      | same => exact absurd hprivate hpublic
      | other hy hy8 hz =>
        rcases hprivate with hpair | htriple | hfirst
        · exact absurd (.inl hpair) hpublic
        · clear hpublic
          rw [PrivateTriple] at htriple
          omega
        · exact absurd (.inr (.inr hfirst)) hpublic

/-! ## Numbers and dots -/

theorem inetNumber_units (h : inetNumber part = some n) :
    ∀ c ∈ part, (hexDigit c).isSome = true ∨ c = 120 ∨ c = 88 := by
  have hdigit {c : Nat} (hc : isDigit c = true) : (hexDigit c).isSome = true := by
    rw [hexDigit, if_pos (isDigit_iff.mp hc)]
    rfl
  have hoctal {c : Nat} (hc : isOctalDigit c = true) : (hexDigit c).isSome = true := by
    have := isOctalDigit_iff.mp hc
    exact hdigit (isDigit_iff.mpr (by omega))
  have hzero : (hexDigit 48).isSome = true := by decide
  unfold inetNumber at h
  split at h
  · cases h
  · split at h
    · rename_i hall
      exact List.forall_mem_cons.mpr ⟨.inl hzero, List.forall_mem_cons.mpr
        ⟨.inr (.inl rfl), fun c hc => .inl (List.all_eq_true.mp hall.2 c hc)⟩⟩
    · cases h
  · split at h
    · rename_i hall
      exact List.forall_mem_cons.mpr ⟨.inl hzero, List.forall_mem_cons.mpr
        ⟨.inr (.inr rfl), fun c hc => .inl (List.all_eq_true.mp hall.2 c hc)⟩⟩
    · cases h
  · split at h
    · rename_i hall
      exact List.forall_mem_cons.mpr ⟨.inl hzero, fun c hc => .inl (hoctal (List.all_eq_true.mp hall c hc))⟩
    · cases h
  · split at h
    · rename_i hall
      exact fun c hc => .inl (hdigit (List.all_eq_true.mp hall c hc))
    · cases h

variable {text : Text}

theorem inetNumbers_parts (h : inetNumbers text = some n) :
    ∃ numbers, List.Forall₂ (fun part m => inetNumber part = some m) (text.splitOn dot) numbers := by
  cases hnumbers : (text.splitOn dot).mapM inetNumber with
  | none =>
    rw [inetNumbers, hnumbers] at h
    cases h
  | some numbers => exact ⟨numbers, mapM_eq_some_iff.mp hnumbers⟩

theorem inetNumbers_units (h : inetNumbers text = some n) :
    ∀ c ∈ text, ¬ Opens c ∧ ¬ Closes c ∧ c ≠ colon := by
  obtain ⟨numbers, hnumbers⟩ := inetNumbers_parts h
  intro c hc
  rw [← show [dot].intercalate (text.splitOn dot) = text from List.intercalate_splitOn dot] at hc
  have hrange : c = 46 ∨ 48 ≤ c ∧ c ≤ 57 ∨ 65 ≤ c ∧ c ≤ 122 ∧ c ≠ 91 ∧ c ≠ 93 := by
    rcases mem_intercalate hc with rfl | ⟨part, hpart, hc⟩
    · exact .inl rfl
    · obtain ⟨m, hm⟩ := forall₂_mem hnumbers part hpart
      rcases inetNumber_units hm c hc with hdigit | rfl | rfl
      · have hcases := coreUnit_cases (.inr (.inr hdigit))
        have hcolon : c ≠ 58 := by
          rintro rfl
          exact absurd hdigit (by decide)
        omega
      · omega
      · omega
  have hspace : c ∉ Text.whiteSpace := fun hmem => by
    have := whiteSpace_cases hmem
    omega
  refine ⟨?_, ?_, ?_⟩
  · rintro (hmem | rfl)
    · exact hspace hmem
    · omega
  · rintro (hmem | rfl | rfl)
    · exact hspace hmem
    · omega
    · omega
  · rintro rfl
    rw [colon] at hrange
    omega

variable {a : Address}

theorem dotted_of_units (h : Denotes text a)
    (hunits : ∀ c ∈ text, ¬ Opens c ∧ ¬ Closes c ∧ c ≠ colon) : ∃ octets, Dotted text octets ∧ a = .v4 (value 256 octets) := by
  obtain ⟨before, core, after, rfl, hbefore, hafter, hspells⟩ := h
  have hnone : before = [] := by
    refine List.eq_nil_iff_forall_not_mem.mpr fun c hc => ?_
    exact (hunits c (by simp [hc])).1 (hbefore c hc)
  have hnone' : after = [] := by
    cases after with
    | nil => rfl
    | cons c after => exact absurd (hafter c rfl) (hunits c (by simp)).2.1
  subst hnone
  subst hnone'
  rw [List.nil_append, List.append_nil] at hunits ⊢
  cases hspells with
  | dotted h => exact ⟨_, h, rfl⟩
  | colons h => exact absurd rfl (hunits colon (colons_units h).1).2.2

theorem inetNumbers_dotted {p q r s : Text} {a b c d : Nat} (hp : Octet p a) (hq : Octet q b) (hr : Octet r c) (hs : Octet s d) :
    inetNumbers ([dot].intercalate [p, q, r, s]) = some n ↔
      ∃ a' b' c' d', inetNumber p = some a' ∧ inetNumber q = some b' ∧ inetNumber r = some c' ∧ inetNumber s = some d' ∧
        (a' < 256 ∧ b' < 256 ∧ c' < 256 ∧ d' < 256) ∧ n = value 256 [a', b', c', d'] := by
  have hsplit : ([dot].intercalate [p, q, r, s]).splitOn dot = [p, q, r, s] := by
    rw [List.splitOn_intercalate dot _ (List.cons_ne_nil _ _)]
    simp only [List.forall_mem_cons]
    exact ⟨dot_notMem hp, dot_notMem hq, dot_notMem hr, dot_notMem hs, nofun⟩
  constructor
  · intro h
    obtain ⟨numbers, hnumbers⟩ := inetNumbers_parts h
    have hread := mapM_eq_some_iff.mpr hnumbers
    rw [hsplit] at hnumbers
    simp only [List.forall₂_cons_left_iff, List.forall₂_nil_left_iff] at hnumbers
    obtain ⟨a', _, ha, ⟨b', _, hb, ⟨c', _, hc, ⟨d', _, hd, rfl, rfl⟩, rfl⟩, rfl⟩, rfl⟩ := hnumbers
    rw [inetNumbers, hread] at h
    simp only at h
    split at h
    · rename_i hlt
      exact ⟨a', b', c', d', ha, hb, hc, hd, hlt, (Option.some.inj h).symm⟩
    · cases h
  · rintro ⟨a', b', c', d', ha, hb, hc, hd, hlt, rfl⟩
    have hread : [p, q, r, s].mapM inetNumber = some [a', b', c', d'] :=
      mapM_eq_some_iff.mpr (.cons ha (.cons hb (.cons hc (.cons hd .nil))))
    rw [inetNumbers, hsplit, hread]
    exact if_pos hlt

theorem octal_of_inetNumber {m : Nat} (hdigits : ∀ c ∈ part, isDigit c = true) (h : inetNumber part = some m) :
    part.head? = some 48 → ∀ c ∈ part, isOctalDigit c = true := by
  intro hhead
  cases part with
  | nil => exact nofun
  | cons c part =>
    obtain rfl := Option.some.inj hhead
    rw [inetNumber_zero fun c hc => hdigits c (List.mem_cons_of_mem _ hc)] at h
    split at h
    · rename_i hall
      exact List.forall_mem_cons.mpr ⟨by decide, List.all_eq_true.mp hall⟩
    · cases h

theorem parts_eq {ps qs : List Text} (hps : ∀ p ∈ ps, dot ∉ p) (hqs : ∀ q ∈ qs, dot ∉ q) (hne : ps ≠ []) (hne' : qs ≠ [])
    (h : [dot].intercalate ps = [dot].intercalate qs) : ps = qs := by
  rw [← List.splitOn_intercalate dot hps hne, h, List.splitOn_intercalate dot hqs hne']

theorem octets_of_dotted {p q r s : Text} {octets : List Nat} (hdigits : ∀ part ∈ [p, q, r, s], ∀ c ∈ part, isDigit c = true)
    (h : Dotted ([dot].intercalate [p, q, r, s]) octets) : ∃ a b c d, Octet p a ∧ Octet q b ∧ Octet r c ∧ Octet s d := by
  generalize htext : [dot].intercalate [p, q, r, s] = text at h
  cases h with
  | @intro p' q' r' s' a b c d hp hq hr hs =>
    have hdots : ∀ part ∈ [p', q', r', s'], dot ∉ part := by
      simp only [List.forall_mem_cons]
      exact ⟨dot_notMem hp, dot_notMem hq, dot_notMem hr, dot_notMem hs, nofun⟩
    have hparts := parts_eq (fun part hpart hdot => absurd (hdigits part hpart dot hdot) (by decide)) hdots (List.cons_ne_nil _ _)
      (List.cons_ne_nil _ _) htext
    simp only [List.cons.injEq, and_true] at hparts
    obtain ⟨rfl, rfl, rfl, rfl⟩ := hparts
    exact ⟨a, b, c, d, hp, hq, hr, hs⟩

theorem private_of_trap {p q r : Text} {a b c : Nat} (ha : inetNumber p = some a) (hb : inetNumber q = some b)
    (hc : inetNumber r = some c)
    (h : p = .of "012" ∨
      (p = .of "172" ∧ q ∈ [Text.of "032", .of "033", .of "034", .of "035", .of "036", .of "037"]) ∨
      (p = .of "198" ∧ (q ∈ [Text.of "022", .of "023"] ∨ (q = .of "063" ∧ r = .of "100")))) :
    PrivatePair a b ∨ PrivateTriple a b c ∨ a = 0 ∨ 224 ≤ a := by
  have hread {part : Text} {m n : Nat} (h : inetNumber part = some m) (hn : inetNumber part = some n) : m = n :=
    Option.some.inj (h.symm.trans hn)
  rcases h with rfl | ⟨rfl, hq⟩ | ⟨rfl, hq | ⟨rfl, rfl⟩⟩
  · exact .inl (.inl (hread ha (by decide)))
  · obtain rfl := hread ha (show _ = some 172 by decide)
    have hrange : ∀ q ∈ [Text.of "032", .of "033", .of "034", .of "035", .of "036", .of "037"],
        ∃ b, inetNumber q = some b ∧ 16 ≤ b ∧ b ≤ 31 := by
      simp only [List.forall_mem_cons]
      exact ⟨⟨26, by decide⟩, ⟨27, by decide⟩, ⟨28, by decide⟩, ⟨29, by decide⟩, ⟨30, by decide⟩, ⟨31, by decide⟩, nofun⟩
    obtain ⟨b', hb', hle, hge⟩ := hrange q hq
    rw [hread hb hb']
    exact .inl (.inr (.inr (.inr (.inl ⟨rfl, hle, hge⟩))))
  · obtain rfl := hread ha (show _ = some 198 by decide)
    simp only [List.mem_cons, List.not_mem_nil, or_false] at hq
    rcases hq with rfl | rfl
    · exact .inl (.inr (.inr (.inr (.inr (.inr (.inr ⟨rfl, .inl (hread hb (by decide))⟩))))))
    · exact .inl (.inr (.inr (.inr (.inr (.inr (.inr ⟨rfl, .inr (hread hb (by decide))⟩))))))
  · exact .inr (.inl (.inr (.inr (.inr (.inl ⟨hread ha (by decide), hread hb (by decide), hread hc (by decide)⟩)))))

theorem not_global_iff {a b c d : Nat} (hlt : a < 256 ∧ b < 256 ∧ c < 256 ∧ d < 256) :
    ¬ Global (.v4 (value 256 [a, b, c, d])) ↔ PrivatePair a b ∨ PrivateTriple a b c ∨ a = 0 ∨ 224 ≤ a := by
  rw [← isPrivateIpv4_cases (d := d), isPrivateIpv4_iff hlt.1 hlt.2.1 hlt.2.2.1 hlt.2.2.2, Global]
  simp only [not_forall, not_not, exists_prop]

theorem octalNumbers_iff (h : Denotes text a) (hglobal : Global a) :
    OctalNumbers text ↔ ∃ n, inetNumbers text = some n ∧ ¬ Global (.v4 n) := by
  constructor
  · rintro ⟨p, q, r, s, rfl, hparts, htrap⟩
    have hunits : ∀ c ∈ [dot].intercalate [p, q, r, s], ¬ Opens c ∧ ¬ Closes c ∧ c ≠ colon := by
      have hdigit : ∀ c, c = dot ∨ isDigit c = true → CoreUnit c ∧ c ≠ colon := by
        rintro c (rfl | hc)
        · exact ⟨.inl rfl, by decide⟩
        · have hrange := isDigit_iff.mp hc
          refine ⟨.inr (.inr ?_), ?_⟩
          · rw [hexDigit, if_pos hrange]
            rfl
          · rintro rfl
            exact absurd hc (by decide)
      intro c hc
      have hunit := hdigit c ((mem_intercalate hc).imp id fun hpart => by
        obtain ⟨part, hpart, hc⟩ := hpart
        exact (hparts part hpart).1 c hc)
      exact ⟨not_opens_of_coreUnit hunit.1, not_closes_of_coreUnit hunit.1, hunit.2⟩
    obtain ⟨octets, hdotted, rfl⟩ := dotted_of_units h hunits
    obtain ⟨a, b, c, d, hp, hq, hr, hs⟩ := octets_of_dotted (fun part hpart => (hparts part hpart).1) hdotted
    simp only [List.forall_mem_cons] at hparts
    obtain ⟨⟨-, hoctalP⟩, ⟨-, hoctalQ⟩, ⟨-, hoctalR⟩, ⟨-, hoctalS⟩, -⟩ := hparts
    obtain ⟨a', ha, hale⟩ := inetNumber_of_octet hp hoctalP
    obtain ⟨b', hb, hble⟩ := inetNumber_of_octet hq hoctalQ
    obtain ⟨c', hc, hcle⟩ := inetNumber_of_octet hr hoctalR
    obtain ⟨d', hd, hdle⟩ := inetNumber_of_octet hs hoctalS
    have hlt : a' < 256 ∧ b' < 256 ∧ c' < 256 ∧ d' < 256 := by
      have := octets_lt (.intro hp hq hr hs)
      omega
    exact ⟨_, (inetNumbers_dotted hp hq hr hs).mpr ⟨a', b', c', d', ha, hb, hc, hd, hlt, rfl⟩,
      (not_global_iff hlt).mpr (private_of_trap ha hb hc htrap)⟩
  · rintro ⟨n, hn, hprivate⟩
    obtain ⟨octets, hdotted, rfl⟩ := dotted_of_units h (inetNumbers_units hn)
    cases hdotted with
    | @intro p q r s a b c d hp hq hr hs =>
      obtain ⟨a', b', c', d', ha, hb, hc, hd, hlt, rfl⟩ := (inetNumbers_dotted hp hq hr hs).mp hn
      have hle := octets_lt (.intro hp hq hr hs)
      rw [not_global_iff hlt] at hprivate
      have hpublic := mt (not_global_iff hle).mpr (not_not.mpr hglobal)
      refine ⟨p, q, r, s, rfl, ?_, octal_private hp hr (octalReading_of_inetNumber hp ha) (octalReading_of_inetNumber hq hb)
        (octalReading_of_inetNumber hr hc) hpublic hprivate⟩
      simp only [List.forall_mem_cons]
      exact ⟨⟨hp.digits, octal_of_inetNumber hp.digits ha⟩, ⟨hq.digits, octal_of_inetNumber hq.digits hb⟩,
        ⟨hr.digits, octal_of_inetNumber hr.digits hc⟩, ⟨hs.digits, octal_of_inetNumber hs.digits hd⟩, List.forall_mem_nil _⟩

theorem inetText_cases (h : Denotes text a) : Denotes (inetText text) a ∨ ∀ c ∈ inetText text, Opens c := by
  obtain ⟨before, core, after, rfl, hbefore, hafter, hspells⟩ := h
  have hcore : ∀ c ∈ core, (!isInetSpace c) = true := by
    intro c hc
    have hnot := not_opens_of_coreUnit ((spells_units hspells).2 c hc)
    rw [Bool.not_eq_true', ← Bool.not_eq_true]
    intro hspace
    have hrange : (9 ≤ c ∧ c ≤ 13) ∨ c = 32 := by simpa [isInetSpace] using hspace
    refine hnot (.inl ?_)
    obtain rfl | rfl | rfl | rfl | rfl | rfl : c = 9 ∨ c = 10 ∨ c = 11 ∨ c = 12 ∨ c = 13 ∨ c = 32 := by omega
    all_goals decide
  rw [inetText, List.append_assoc, List.takeWhile_append]
  split
  · refine .inl ⟨before, core, inetText after, ?_, hbefore, ?_, hspells⟩
    · rw [List.takeWhile_append_of_pos hcore, List.append_assoc]
      rfl
    · intro c hc
      cases after with
      | nil => cases hc
      | cons c' after =>
        rw [inetText, List.takeWhile_cons] at hc
        split at hc
        · exact hafter c hc
        · cases hc
  · exact .inr fun c hc => hbefore c ((List.takeWhile_sublist _).subset hc)

theorem isOctalTrap_iff (h : Denotes text a) (hglobal : Global a) :
    IsOctalTrap text ↔ ∃ n, inetAton text = some n ∧ ¬ Global (.v4 n) := by
  rcases inetText_cases h with hread | hopens
  · exact octalNumbers_iff hread hglobal
  · constructor
    · rintro ⟨p, q, r, s, heq, -⟩
      exact absurd (hopens dot (by rw [heq]; simp [List.intercalate_cons_cons])) (not_opens_of_coreUnit (.inl rfl))
    · rintro ⟨n, hn, -⟩
      rw [inetAton] at hn
      cases hempty : inetText text with
      | nil =>
        rw [hempty] at hn
        cases hn
      | cons c rest =>
        have hmem : c ∈ inetText text := by simp [hempty]
        exact absurd (hopens c hmem) (inetNumbers_units hn c hmem).1

/-! ## Texts that the guard lets through -/

section Admission

variable (cases : CaseMapping)

def passes (t : Text) : Bool := isIpLiteral cases t && !isInternalEgressIp cases t

theorem trim_within (t : Text) : t.trim <:+: t :=
  (List.rdropWhile_prefix (p := isWhiteSpace) (l := t.dropWhile isWhiteSpace)).isInfix.trans (List.dropWhile_suffix _).isInfix

theorem denotes_of_settled {t u : Text} (ht : t <:+: cases.toLowerCase u) (h : guardAddress cases t = some a) :
    Denotes t a := by
  have hread := denotes_of_guardAddress cases h
  rw [normalizeAddress, normalizeInternalHost, cases.settled t.trim u ((trim_within t).trans ht)] at hread
  exact denotes_of_trim (denotes_of_stripIpv6Brackets (denotes_of_stripIpv6Zone hread))

theorem isIpLiteral_of_isInternalEgressIp {t : Text} (h : isInternalEgressIp cases t = true) : isIpLiteral cases t = true := by
  rw [isInternalEgressIp] at h
  rw [isIpLiteral]
  split at h
  · rename_i octets hoctets
    rw [hoctets]
    rfl
  · rw [Bool.and_eq_true, isInternalIpv6] at h
    cases hread : parseIpv6 cases (normalizeAddress cases t) with
    | none =>
      rw [hread] at h
      exact absurd h.2 Bool.false_ne_true
    | some hextets => simp

theorem passes_iff {t : Text} (ha : Denotes t a) (hliteral : isIpLiteral cases t = true) :
    passes cases t = true ↔ Global a := by
  obtain ⟨b, hb⟩ := (isIpLiteral_iff cases).mp hliteral
  obtain rfl := guardAddress_eq cases ha hb
  have hinternal := isInternalEgressIp_iff cases hb
  rw [passes, hliteral, Bool.true_and, Bool.not_eq_true', ← Bool.not_eq_true, hinternal, not_not]

theorem denotes_of_passes {t u : Text} (ht : t <:+: cases.toLowerCase u) (h : passes cases t = true) :
    ∃ a, Denotes t a ∧ Global a := by
  have hliteral := (Bool.and_eq_true_iff.mp h).1
  obtain ⟨a, ha⟩ := (isIpLiteral_iff cases).mp hliteral
  have hdenotes := denotes_of_settled cases ht ha
  exact ⟨a, hdenotes, (passes_iff cases hdenotes hliteral).mp h⟩

/-! ## Answers of the resolver -/

theorem admitAddress_ok {hostname : Text} {admitted : List Text} {address : Text}
    (h : passes cases (normalizeAddress cases address) = true) :
    admitAddress cases hostname false [] admitted address =
      .ok (if normalizeAddress cases address ∈ admitted then admitted else admitted ++ [normalizeAddress cases address]) := by
  obtain ⟨hliteral, hinternal⟩ := Bool.and_eq_true_iff.mp h
  have hnot : ¬ isInternalEgressIp cases (normalizeAddress cases address) = true := by simpa using hinternal
  rw [admitAddress, if_neg (not_not.mpr hliteral), if_neg fun h => hnot h.2.1]

theorem admitAddress_eq_ok {hostname : Text} {admitted next : List Text} {address : Text}
    (h : admitAddress cases hostname false [] admitted address = .ok next) :
    passes cases (normalizeAddress cases address) = true := by
  rw [admitAddress] at h
  split at h
  · cases h
  rename_i hliteral
  split at h
  · cases h
  rename_i hinternal
  rw [not_not] at hliteral
  rw [passes, hliteral, Bool.true_and, Bool.not_eq_true', ← Bool.not_eq_true]
  exact fun hi => hinternal ⟨Bool.false_ne_true, hi, List.not_mem_nil⟩

theorem foldlM_admitAddress {hostname : Text} (addresses : List Text) (admitted : List Text) :
    (∀ list, addresses.foldlM (admitAddress cases hostname false []) admitted = .ok list →
      (∀ x ∈ addresses, passes cases (normalizeAddress cases x) = true) ∧
        ∀ t, t ∈ list ↔ t ∈ admitted ∨ t ∈ addresses.map (normalizeAddress cases)) ∧
      ((∀ x ∈ addresses, passes cases (normalizeAddress cases x) = true) →
        ∃ list, addresses.foldlM (admitAddress cases hostname false []) admitted = .ok list) := by
  induction addresses generalizing admitted with
  | nil =>
    refine ⟨fun list h => ?_, fun _ => ⟨admitted, rfl⟩⟩
    obtain rfl := Except.ok.inj h
    exact ⟨nofun, by simp⟩
  | cons x addresses ih =>
    rw [List.foldlM_cons]
    by_cases hx : passes cases (normalizeAddress cases x) = true
    · rw [admitAddress_ok cases hx]
      obtain ⟨hok, hex⟩ := ih (if normalizeAddress cases x ∈ admitted then admitted else admitted ++ [normalizeAddress cases x])
      refine ⟨fun list h => ?_, fun hall => hex fun y hy => hall y (List.mem_cons_of_mem _ hy)⟩
      obtain ⟨hpass, hmem⟩ := hok list h
      refine ⟨List.forall_mem_cons.mpr ⟨hx, hpass⟩, fun t => ?_⟩
      rw [hmem, List.map_cons, List.mem_cons]
      split
      · rename_i hin
        constructor
        · exact Or.imp id .inr
        · rintro (h | rfl | h)
          · exact .inl h
          · exact .inl hin
          · exact .inr h
      · rw [List.mem_append, List.mem_singleton, or_assoc]
    · refine ⟨fun list h => ?_, fun hall => absurd (hall x List.mem_cons_self) hx⟩
      cases hadmitted : admitAddress cases hostname false [] admitted x with
      | error e =>
        rw [hadmitted] at h
        cases h
      | ok next => exact absurd (admitAddress_eq_ok cases hadmitted) hx

/-! ## Hosts -/

section Hosts

variable (env : Option Text) (hostname : Text) (options : WorkerEgressGuardOptions)

/-- What would be handed on for a host: itself if it is an address, otherwise the answers for it. -/
def candidates : List Text :=
  let host := normalizeInternalHost cases hostname
  if isIpLiteral cases host then [host]
  else
    match options.resolveHost host with
    | .ok addresses => addresses.map (normalizeAddress cases)
    | .error _ => []

theorem resolve_ok (hoverride : options.allowInternalEgress ≠ some true)
    (hlist : isAllowedInternalHost cases env (normalizeInternalHost cases hostname) options = false) :
    (∀ list, resolveWorkerHostEgressAddresses cases env hostname options [] = .ok list →
      isLocalhostName cases (normalizeInternalHost cases hostname) = false ∧
        (∀ t ∈ candidates cases hostname options, passes cases t = true) ∧ ∀ t, t ∈ list ↔ t ∈ candidates cases hostname options) ∧
      (isLocalhostName cases (normalizeInternalHost cases hostname) = false → candidates cases hostname options ≠ [] →
        (∀ t ∈ candidates cases hostname options, passes cases t = true) →
          ∃ list, resolveWorkerHostEgressAddresses cases env hostname options [] = .ok list) := by
  rw [resolveWorkerHostEgressAddresses, candidates]
  generalize normalizeInternalHost cases hostname = host at hlist ⊢
  simp only [hlist, hoverride, Bool.false_eq_true, not_false_eq_true, true_and, decide_false, Bool.or_self]
  by_cases hblocked : isLocalhostName cases host = true ∨ isInternalEgressIp cases host = true
  · rw [if_pos hblocked]
    refine ⟨nofun, fun hlocal _ hpasses => ?_⟩
    rcases hblocked with hname | hinternal
    · exact absurd hname (Bool.eq_false_iff.mp hlocal)
    · rw [if_pos (isIpLiteral_of_isInternalEgressIp cases hinternal)] at hpasses
      have hpass := hpasses host (List.mem_singleton_self _)
      rw [passes, hinternal, Bool.not_true, Bool.and_false] at hpass
      cases hpass
  rw [if_neg hblocked]
  have hlocal : isLocalhostName cases host = false := Bool.eq_false_iff.mpr fun h => hblocked (.inl h)
  by_cases hliteral : isIpLiteral cases host = true
  · rw [if_pos hliteral, if_pos hliteral]
    have hpass : passes cases host = true := by
      rw [passes, hliteral, Bool.true_and, Bool.not_eq_true', ← Bool.not_eq_true]
      exact fun hinternal => hblocked (.inr hinternal)
    refine ⟨fun list h => ?_, fun _ _ _ => ⟨_, rfl⟩⟩
    obtain rfl := Except.ok.inj h
    exact ⟨hlocal, List.forall_mem_singleton.mpr hpass, fun _ => Iff.rfl⟩
  rw [if_neg hliteral, if_neg hliteral]
  cases options.resolveHost host with
  | error e => cases e <;> exact ⟨nofun, fun _ hne => absurd rfl hne⟩
  | ok addresses =>
    simp only
    by_cases hnone : addresses.length = 0
    · rw [if_pos hnone, List.length_eq_zero_iff.mp hnone]
      exact ⟨nofun, fun _ hne => absurd rfl hne⟩
    rw [if_neg hnone]
    obtain ⟨hok, hex⟩ := @foldlM_admitAddress cases hostname addresses []
    refine ⟨fun list h => ?_, fun _ _ hpasses => hex fun x hx => hpasses _ (List.mem_map_of_mem hx)⟩
    obtain ⟨hpasses, hmem⟩ := hok list h
    refine ⟨hlocal, fun t ht => ?_, fun t => (hmem t).trans (or_iff_right List.not_mem_nil)⟩
    obtain ⟨x, hx, rfl⟩ := List.mem_map.mp ht
    exact hpasses x hx

theorem candidates_settled {t : Text} (h : t ∈ candidates cases hostname options) : ∃ u, t <:+: cases.toLowerCase u := by
  rw [candidates] at h
  split at h
  · rw [List.mem_singleton.mp h]
    exact ⟨_, normalizeInternalHost_within cases hostname⟩
  split at h
  · obtain ⟨x, -, rfl⟩ := List.mem_map.mp h
    exact ⟨_, normalizeAddress_within cases x⟩
  · cases h

theorem resolve_filter (allowed : List Text) :
    resolveWorkerHostEgressAddresses cases env hostname options allowed =
      resolveWorkerHostEgressAddresses cases env hostname
        { options with
          allowedInternalHosts := some ((options.allowedInternalHosts.getD (parseAllowedInternalHosts cases env)).filter fun entry =>
            opens cases (normalizeInternalHost cases entry)) } allowed := by
  rw [resolveWorkerHostEgressAddresses, resolveWorkerHostEgressAddresses, isAllowedInternalHost, isAllowedInternalHost]
  have hentries (entries : List Text) :
      ((entries.filter fun entry => opens cases (normalizeInternalHost cases entry)).map (normalizeInternalHost cases)).filter
          (opens cases) = (entries.map (normalizeInternalHost cases)).filter (opens cases) := by
    rw [List.filter_map, List.filter_map, List.filter_filter]
    exact congrArg _ (List.filter_congr fun entry _ => Bool.and_self _)
  simp only [Option.getD_some, hentries]

/-- For a host that is no allowed internal name, what is handed on is public in either reading, and a literal
passes exactly if its address is public, unless a text is one of the traps or the zone of a literal makes it a local name.
The answers of the resolver pass by their addresses alone, and only names open anything in the list. -/
theorem worker_egress (hoverride : options.allowInternalEgress ≠ some true)
    (hlist : isAllowedInternalHost cases env (normalizeInternalHost cases hostname) options = false) :
    (((∀ list, resolveWorkerHostEgressAddresses cases env hostname options [] = .ok list → ∀ t ∈ list, PublicText t) ∧
        ∀ a, Denotes hostname a → isIpLiteral cases (normalizeInternalHost cases hostname) = true →
          ((∃ list, resolveWorkerHostEgressAddresses cases env hostname options [] = .ok list) ↔ Global a)) ↔
      (∀ a, Denotes hostname a → Global a → isIpLiteral cases (normalizeInternalHost cases hostname) = true →
          isLocalhostName cases (normalizeInternalHost cases hostname) = false) ∧
        (isLocalhostName cases (normalizeInternalHost cases hostname) = true ∨
          (∃ t ∈ candidates cases hostname options, passes cases t = false) ∨
          ∀ t ∈ candidates cases hostname options, ¬ IsOctalTrap t)) ∧
      (∀ admitted x a, Denotes x a → isIpLiteral cases (normalizeAddress cases x) = true →
        ((∃ next, admitAddress cases hostname false [] admitted x = .ok next) ↔ Global a)) ∧
      ∀ allowed, resolveWorkerHostEgressAddresses cases env hostname options allowed =
        resolveWorkerHostEgressAddresses cases env hostname
          { options with
            allowedInternalHosts := some ((options.allowedInternalHosts.getD (parseAllowedInternalHosts cases env)).filter
              fun entry => opens cases (normalizeInternalHost cases entry)) } allowed := by
  obtain ⟨hok, hex⟩ := resolve_ok cases env hostname options hoverride hlist
  refine ⟨⟨?_, ?_⟩, ?_, resolve_filter cases env hostname options⟩
  · rintro ⟨hsafe, hverdict⟩
    constructor
    · intro a ha hglobal hliteral
      obtain ⟨list, hlist⟩ := (hverdict a ha hliteral).mpr hglobal
      exact (hok list hlist).1
    · by_contra hnot
      simp only [not_or, not_exists, not_and, Bool.not_eq_true, Bool.not_eq_false, not_forall, not_not] at hnot
      obtain ⟨hlocal, hpasses, t, ht, htrap⟩ := hnot
      obtain ⟨list, hlist⟩ := hex hlocal (List.ne_nil_of_mem ht) hpasses
      obtain ⟨u, hu⟩ := candidates_settled cases hostname options ht
      obtain ⟨a, ha, hglobal⟩ := denotes_of_passes cases hu (hpasses t ht)
      obtain ⟨n, hn, hprivate⟩ := (isOctalTrap_iff ha hglobal).mp htrap
      exact hprivate ((hsafe list hlist t (((hok list hlist).2.2 t).mpr ht)).numbers n hn)
  · rintro ⟨hname, hcondition⟩
    constructor
    · intro list hlist t ht
      obtain ⟨hlocal, hpasses, hmem⟩ := hok list hlist
      have hcandidate := (hmem t).mp ht
      obtain ⟨u, hu⟩ := candidates_settled cases hostname options hcandidate
      obtain ⟨a, ha, hglobal⟩ := denotes_of_passes cases hu (hpasses t hcandidate)
      have htraps : ∀ t ∈ candidates cases hostname options, ¬ IsOctalTrap t := by
        rcases hcondition with h | ⟨t, ht, h⟩ | h
        · exact absurd h (Bool.eq_false_iff.mp hlocal)
        · exact absurd (hpasses t ht) (Bool.eq_false_iff.mp h)
        · exact h
      refine ⟨⟨a, ha⟩, fun b hb => denotes_unique ha hb ▸ hglobal, fun n hn => ?_⟩
      by_contra hprivate
      exact htraps t hcandidate ((isOctalTrap_iff ha hglobal).mpr ⟨n, hn, hprivate⟩)
    · intro a ha hliteral
      have hcandidates : candidates cases hostname options = [normalizeInternalHost cases hostname] := if_pos hliteral
      have hpass := passes_iff cases (denotes_normalizeInternalHost cases ha) hliteral
      rw [hcandidates] at hok hex
      constructor
      · rintro ⟨list, hlist⟩
        exact hpass.mp ((hok list hlist).2.1 _ (List.mem_singleton_self _))
      · intro hglobal
        exact hex (hname a ha hglobal hliteral) (List.cons_ne_nil _ _) (List.forall_mem_singleton.mpr (hpass.mpr hglobal))
  · intro admitted x a ha hliteral
    rw [← passes_iff cases (denotes_normalizeAddress cases ha) hliteral]
    exact ⟨fun ⟨next, h⟩ => admitAddress_eq_ok cases h, fun h => ⟨_, admitAddress_ok cases h⟩⟩

end Hosts

end Admission

/-- No list, and a resolver without answers. -/
def plainOptions : WorkerEgressGuardOptions := ⟨none, none, fun _ => .ok []⟩

theorem worker_egress_public : PublicText (.of "8.8.8.8") := by
  have hdenotes : Denotes (.of "8.8.8.8") (.v4 0x08080808) := denotes_of_spells (spells_of_readAddress (by decide))
  have hnumbers : inetAton (.of "8.8.8.8") = some 0x08080808 := by decide
  have hglobal : Global (.v4 0x08080808) := by decide
  have hcandidates : candidates latinCases (.of "8.8.8.8") plainOptions = [.of "8.8.8.8"] := by decide
  refine ((worker_egress latinCases none (.of "8.8.8.8") plainOptions (by decide) (by decide)).1.mpr
    ⟨fun _ _ _ _ => by decide, .inr (.inr ?_)⟩).1 [.of "8.8.8.8"] (by decide) _ (List.mem_singleton_self _)
  rw [hcandidates, List.forall_mem_singleton]
  intro htrap
  obtain ⟨n, hn, hprivate⟩ := (isOctalTrap_iff hdenotes hglobal).mp htrap
  rw [hnumbers] at hn
  exact hprivate (Option.some.inj hn ▸ hglobal)

/-- Twelve in base 10 is ten in base 8. -/
theorem worker_egress_trap :
    ¬ ∀ (cases : CaseMapping) env hostname (options : WorkerEgressGuardOptions), options.allowInternalEgress ≠ some true →
      isAllowedInternalHost cases env (normalizeInternalHost cases hostname) options = false →
        ∀ list, resolveWorkerHostEgressAddresses cases env hostname options [] = .ok list → ∀ t ∈ list, PublicText t := by
  intro h
  have hpublic := h latinCases none (.of "012.0.0.1") plainOptions (by decide) (by decide) [.of "012.0.0.1"] (by decide) _
    (List.mem_singleton_self _)
  exact absurd (hpublic.numbers 0x0a000001 (by decide)) (by decide)

end Veryfront.Security.Egress
