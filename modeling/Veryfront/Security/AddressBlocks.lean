import Veryfront.Security.WorkerEgressGuard

/-!
# Blocks of the guard

The tests on octets and groups are membership in the blocks.
-/

namespace Veryfront.Security.Network

open Lib.Cidr Egress

/-! ## Octets -/

section Octets

variable {a b c d : Nat}

theorem contains_first {x length : Nat} (k : Nat) (hb : b < 256) (hc : c < 256) (hd : d < 256)
    (hlength : 32 - length = 8 * 3 + k) :
    (block4 [x, 0, 0, 0] length).Contains 32 (value 256 [a, b, c, d]) ↔ a / 2 ^ k = x / 2 ^ k := by
  have h := contains_append 8 k [a] [b, c, d] [x] [0, 0, 0] (by simp [*]) (by simp) rfl hlength
  simpa [value, block4] using h

theorem contains_second {x y length : Nat} (k : Nat) (hc : c < 256) (hd : d < 256) (hlength : 32 - length = 8 * 2 + k) :
    (block4 [x, y, 0, 0] length).Contains 32 (value 256 [a, b, c, d]) ↔
      (256 * a + b) / 2 ^ k = (256 * x + y) / 2 ^ k := by
  have h := contains_append 8 k [a, b] [c, d] [x, y] [0, 0] (by simp [*]) (by simp) rfl hlength
  simpa [value, block4] using h

theorem contains_third {x y z : Nat} (hd : d < 256) :
    (block4 [x, y, z, 0] 24).Contains 32 (value 256 [a, b, c, d]) ↔ 256 * (256 * a + b) + c = 256 * (256 * x + y) + z := by
  have hwidth : 32 - 24 = 8 * [d].length + 0 := rfl
  have h := contains_append 8 0 [a, b, c] [d] [x, y, z] [0] (by simp [*]) (by simp) rfl hwidth
  simpa [value, block4] using h

end Octets

theorem isPrivateIpv4_iff {a b c d : Nat} (ha : a < 256) (hb : b < 256) (hc : c < 256) (hd : d < 256) :
    isPrivateIpv4 [a, b, c, d] = true ↔ ∃ block ∈ nonGlobal4, block.Contains 32 (value 256 [a, b, c, d]) := by
  have h8 (x : Nat) : (block4 [x, 0, 0, 0] 8).Contains 32 (value 256 [a, b, c, d]) ↔ a = x := by
    rw [contains_first 0 hb hc hd rfl, Nat.pow_zero, Nat.div_one, Nat.div_one]
  have h16 {x y : Nat} (hy : y < 256) : (block4 [x, y, 0, 0] 16).Contains 32 (value 256 [a, b, c, d]) ↔ a = x ∧ b = y := by
    rw [contains_second 0 hc hd rfl]
    omega
  have h24 {x y z : Nat} (hy : y < 256) (hz : z < 256) :
      (block4 [x, y, z, 0] 24).Contains 32 (value 256 [a, b, c, d]) ↔ a = x ∧ b = y ∧ c = z := by
    rw [contains_third hd]
    omega
  have hmulticast : (block4 [224, 0, 0, 0] 3).Contains 32 (value 256 [a, b, c, d]) ↔ 224 ≤ a := by
    rw [contains_first 5 hb hc hd rfl]
    omega
  have hprivate : (block4 [172, 16, 0, 0] 12).Contains 32 (value 256 [a, b, c, d]) ↔ a = 172 ∧ 16 ≤ b ∧ b ≤ 31 := by
    rw [contains_second 4 hc hd rfl]
    omega
  have hshared : (block4 [100, 64, 0, 0] 10).Contains 32 (value 256 [a, b, c, d]) ↔ a = 100 ∧ 64 ≤ b ∧ b ≤ 127 := by
    rw [contains_second 6 hc hd rfl]
    omega
  have hbenchmark : (block4 [198, 18, 0, 0] 15).Contains 32 (value 256 [a, b, c, d]) ↔ a = 198 ∧ (b = 18 ∨ b = 19) := by
    rw [contains_second 1 hc hd rfl]
    omega
  simp only [nonGlobal4, List.exists_mem_cons_iff, List.not_mem_nil, false_and, exists_false, or_false, h8, hprivate, h16, hshared,
    hbenchmark, h24, hmulticast, Nat.reduceLT]
  simp only [isPrivateIpv4, Bool.or_eq_true, Bool.and_eq_true, decide_eq_true_eq, or_assoc, and_assoc]

/-! ## Groups -/

theorem mask_eq {h : Nat} (hh : h < 65536) :
    h &&& 0xfe00 = h / 512 * 512 ∧ h &&& 0xf000 = h / 4096 * 4096 ∧ h &&& 0xffc0 = h / 64 * 64 ∧
      h &&& 0xff00 = h / 256 * 256 ∧ h &&& 0xe000 = h / 8192 * 8192 :=
  ⟨and_mask 16 9 hh (by decide), and_mask 16 12 hh (by decide), and_mask 16 6 hh (by decide), and_mask 16 8 hh (by decide),
    and_mask 16 13 hh (by decide)⟩

theorem mul_div_eq_zero_iff {h k : Nat} (hk : 0 < k) : h / k * k = 0 ↔ h < k := by
  rw [Nat.mul_eq_zero, Nat.div_eq_zero_iff]
  omega

section Groups

variable {h0 h1 h2 h3 h4 h5 h6 h7 : Nat}

theorem contains_firstGroup {x length : Nat} (k : Nat) (h : ∀ g ∈ [h1, h2, h3, h4, h5, h6, h7], g < 65536)
    (hlength : 128 - length = 16 * 7 + k) :
    (block6 [x, 0, 0, 0, 0, 0, 0, 0] length).Contains 128 (value 65536 [h0, h1, h2, h3, h4, h5, h6, h7]) ↔
      h0 / 2 ^ k = x / 2 ^ k := by
  have h := contains_append 16 k [h0] [h1, h2, h3, h4, h5, h6, h7] [x] [0, 0, 0, 0, 0, 0, 0] h (by simp) rfl hlength
  simpa [value, block6] using h

theorem contains_secondGroup {x y length : Nat} (k : Nat) (h : ∀ g ∈ [h2, h3, h4, h5, h6, h7], g < 65536)
    (hlength : 128 - length = 16 * 6 + k) :
    (block6 [x, y, 0, 0, 0, 0, 0, 0] length).Contains 128 (value 65536 [h0, h1, h2, h3, h4, h5, h6, h7]) ↔
      (65536 * h0 + h1) / 2 ^ k = (65536 * x + y) / 2 ^ k := by
  have h := contains_append 16 k [h0, h1] [h2, h3, h4, h5, h6, h7] [x, y] [0, 0, 0, 0, 0, 0] h (by simp) rfl hlength
  simpa [value, block6] using h

theorem ipv4Mapped_iff (h : ∀ g ∈ [h0, h1, h2, h3, h4, h5, h6, h7], g < 65536) :
    ipv4Mapped.Contains 128 (value 65536 [h0, h1, h2, h3, h4, h5, h6, h7]) ↔
      h0 = 0 ∧ h1 = 0 ∧ h2 = 0 ∧ h3 = 0 ∧ h4 = 0 ∧ h5 = 0xffff := by
  simp only [List.forall_mem_cons] at h
  have hwidth : 128 - 96 = 16 * [h6, h7].length + 0 := rfl
  have hdigits := contains_append 16 0 [h0, h1, h2, h3, h4, h5] [h6, h7] [0, 0, 0, 0, 0, 0xffff] [0, 0] (by simp [h]) (by simp) rfl
    hwidth
  have hvalue : ipv4Mapped.Contains 128 (value 65536 [h0, h1, h2, h3, h4, h5, h6, h7]) ↔
      65536 * (65536 * (65536 * (65536 * (65536 * h0 + h1) + h2) + h3) + h4) + h5 = 0xffff := by
    simpa [value, ipv4Mapped, block6] using hdigits
  rw [hvalue]
  omega

theorem value_mod (h6lt : h6 < 65536) (h7lt : h7 < 65536) :
    value 65536 [h0, h1, h2, h3, h4, h5, h6, h7] % 2 ^ 32 =
      value 256 [h6 >>> 8, h6 &&& 0xff, h7 >>> 8, h7 &&& 0xff] := by
  have hlow := @value_append_mod 65536 [h0, h1, h2, h3, h4, h5] [h6, h7] (by simp [*])
  have hpow : 65536 ^ [h6, h7].length = 2 ^ 32 := by simp
  have hbyte (h : Nat) : h >>> 8 = h / 256 ∧ h &&& 0xff = h % 256 :=
    ⟨Nat.shiftRight_eq_div_pow _ _, Nat.and_two_pow_sub_one_eq_mod h 8⟩
  rw [hpow] at hlow
  refine hlow.trans ?_
  rw [(hbyte h6).1, (hbyte h6).2, (hbyte h7).1, (hbyte h7).2]
  simp only [value, List.foldl_cons, List.foldl_nil]
  omega

theorem mem_nonGlobal6_iff (h : ∀ g ∈ [h1, h2, h3, h4, h5, h6, h7], g < 65536) (hunicast : h0 / 8192 = 1) :
    (∃ block ∈ nonGlobal6, block.Contains 128 (value 65536 [h0, h1, h2, h3, h4, h5, h6, h7])) ↔
      h0 = 0x2001 ∧ h1 < 512 ∨ h0 = 0x2001 ∧ h1 = 0xdb8 ∨ h0 = 0x3fff ∧ h1 < 4096 ∨ h0 = 0x2002 := by
  have hlow : ∀ g ∈ [h2, h3, h4, h5, h6, h7], g < 65536 := fun g hg => h g (List.mem_cons_of_mem _ hg)
  have hl1 := h h1 List.mem_cons_self
  have hassigned : (block6 [0x2001, 0, 0, 0, 0, 0, 0, 0] 23).Contains 128 (value 65536 [h0, h1, h2, h3, h4, h5, h6, h7]) ↔
      h0 = 0x2001 ∧ h1 < 512 := by
    rw [contains_secondGroup 9 hlow rfl]
    omega
  have hdocumentation : (block6 [0x2001, 0xdb8, 0, 0, 0, 0, 0, 0] 32).Contains 128
      (value 65536 [h0, h1, h2, h3, h4, h5, h6, h7]) ↔ h0 = 0x2001 ∧ h1 = 0xdb8 := by
    rw [contains_secondGroup 0 hlow rfl]
    omega
  have hdocumentationV2 : (block6 [0x3fff, 0, 0, 0, 0, 0, 0, 0] 20).Contains 128
      (value 65536 [h0, h1, h2, h3, h4, h5, h6, h7]) ↔ h0 = 0x3fff ∧ h1 < 4096 := by
    rw [contains_secondGroup 12 hlow rfl]
    omega
  have hsixToFour : (block6 [0x2002, 0, 0, 0, 0, 0, 0, 0] 16).Contains 128
      (value 65536 [h0, h1, h2, h3, h4, h5, h6, h7]) ↔ h0 = 0x2002 := by
    rw [contains_firstGroup 0 h rfl]
    omega
  -- every other block is outside of global unicast
  have hother {x0 x1 x2 x3 x4 x5 x6 x7 length : Nat} (hx0 : x0 / 8192 ≠ 1)
      (hx : ∀ x ∈ [x1, x2, x3, x4, x5, x6, x7], x < 65536) (hlength : 3 ≤ length) :
      ¬ (block6 [x0, x1, x2, x3, x4, x5, x6, x7] length).Contains 128 (value 65536 [h0, h1, h2, h3, h4, h5, h6, h7]) := by
    intro hcontains
    have hwidth : 128 - 3 = 16 * [h1, h2, h3, h4, h5, h6, h7].length + 13 := rfl
    have hfirst := (contains_append 16 13 [h0] [h1, h2, h3, h4, h5, h6, h7] [x0] [x1, x2, x3, x4, x5, x6, x7] h hx rfl hwidth).mp
      (hcontains.shorter hlength)
    simp only [value, List.foldl_cons, List.foldl_nil] at hfirst
    omega
  simp only [nonGlobal6, List.exists_mem_cons_iff, List.not_mem_nil, false_and, exists_false, or_false, hassigned, hdocumentation,
    hdocumentationV2, hsixToFour]
  iterate 6 rw [or_iff_right (hother (by decide) (by decide) (by decide))]
  rw [or_iff_left (hother (by decide) (by decide) (by decide)), or_iff_left (hother (by decide) (by decide) (by decide)),
    or_iff_left (hother (by decide) (by decide) (by decide)), or_iff_left (hother (by decide) (by decide) (by decide))]

/-- Of the tests on an address that is not mapped, four are about global unicast addresses. -/
theorem isInternalHextets_unmapped (hl0 : h0 < 65536) (hl1 : h1 < 65536)
    (hmapped : ¬ (h0 = 0 ∧ h1 = 0 ∧ h2 = 0 ∧ h3 = 0 ∧ h4 = 0 ∧ h5 = 0xffff)) :
    isInternalHextets [h0, h1, h2, h3, h4, h5, h6, h7] = true ↔
      h0 / 8192 ≠ 1 ∨ h0 = 0x2001 ∧ h1 < 512 ∨ h0 = 0x2001 ∧ h1 = 0xdb8 ∨ h0 = 0x3fff ∧ h1 < 4096 ∨ h0 = 0x2002 := by
  have hassigned : h1 / 512 * 512 = 0 ↔ h1 < 512 := mul_div_eq_zero_iff (by decide)
  have hdocumentation : h1 / 4096 * 4096 = 0 ↔ h1 < 4096 := mul_div_eq_zero_iff (by decide)
  have hunicast : h0 / 8192 * 8192 = 8192 ↔ h0 / 8192 = 1 := Nat.mul_eq_right (by decide)
  have hzero (hglobal : h0 / 8192 = 1) : h0 ≠ 0 ∧ h0 ≠ 100 ∧ h0 ≠ 256 ∧ h0 / 64 * 64 ≠ 65216 ∧ h0 / 256 * 256 ≠ 65280 ∧
      h0 / 64 * 64 ≠ 65152 ∧ h0 / 512 * 512 ≠ 64512 := by omega
  obtain ⟨hfe00, hf000, -, -, -⟩ := mask_eq hl1
  obtain ⟨hfe00', -, hffc0, hff00, he000⟩ := mask_eq hl0
  simp only [isInternalHextets, List.all_cons, List.all_nil, List.take_succ_cons, List.take_zero, List.drop_succ_cons, List.drop_zero,
    List.getD_cons_zero, List.getD_cons_succ, hfe00, hf000, hfe00', hffc0, hff00, he000, hassigned, hdocumentation, hunicast,
    Bool.and_true, Bool.or_eq_true, Bool.and_eq_true, decide_eq_true_eq]
  by_cases hglobal : h0 / 8192 = 1
  · simp [hglobal, hzero hglobal, or_assoc]
  · simp [hglobal, hmapped, and_assoc]

theorem isInternalHextets_iff (h : ∀ g ∈ [h0, h1, h2, h3, h4, h5, h6, h7], g < 65536) :
    isInternalHextets [h0, h1, h2, h3, h4, h5, h6, h7] = true ↔
      ¬ Global (.v6 (value 65536 [h0, h1, h2, h3, h4, h5, h6, h7])) := by
  have hlt := h
  simp only [List.forall_mem_cons] at hlt
  obtain ⟨hl0, hl1, -, -, -, -, hl6, hl7, -⟩ := hlt
  have htail : ∀ g ∈ [h1, h2, h3, h4, h5, h6, h7], g < 65536 := fun g hg => h g (List.mem_cons_of_mem _ hg)
  by_cases hmapped : ipv4Mapped.Contains 128 (value 65536 [h0, h1, h2, h3, h4, h5, h6, h7])
  · rw [Global, if_pos hmapped, value_mod hl6 hl7]
    obtain ⟨rfl, rfl, rfl, rfl, rfl, rfl⟩ := (ipv4Mapped_iff h).mp hmapped
    have hbyte {h : Nat} (hh : h < 65536) : h >>> 8 < 256 ∧ h &&& 0xff < 256 :=
      ⟨by rw [Nat.shiftRight_eq_div_pow]; omega, Nat.and_lt_two_pow _ (n := 8) (by decide)⟩
    have hprivate := isPrivateIpv4_iff (hbyte hl6).1 (hbyte hl6).2 (hbyte hl7).1 (hbyte hl7).2
    simpa [isInternalHextets] using hprivate
  · have hglobal : globalUnicast.Contains 128 (value 65536 [h0, h1, h2, h3, h4, h5, h6, h7]) ↔ h0 / 8192 = 1 :=
      contains_firstGroup 13 htail rfl
    rw [Global, if_neg hmapped, hglobal, isInternalHextets_unmapped hl0 hl1 (mt (ipv4Mapped_iff h).mpr hmapped)]
    by_cases hunicast : h0 / 8192 = 1
    · have hblocks := mem_nonGlobal6_iff htail hunicast
      rw [← hblocks]
      simp [hunicast]
    · simp [hunicast]

end Groups

end Veryfront.Security.Network
