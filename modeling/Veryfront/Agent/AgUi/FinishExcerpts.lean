import Mathlib.Data.List.Perm.Subperm
import Mathlib.Data.Nat.Digits.Lemmas
import Veryfront.Agent.AgUi.FinishSnapshot

/-!
# What a snapshot says

The reasons it notes, and how its strings come from those of the data.
-/

namespace Veryfront.Agent.AgUi.MessageFinish

variable {ν : Type}

/-! ## Strings -/

variable {context : Context}

variable {value : Text}

theorem cutString_eq_some {after : Context} {candidate : Text} {rounds stop : Nat}
    (h : cutString context value rounds stop = some (candidate, after)) :
    (∃ kept, candidate = value.take kept ++ stringTruncatedSuffix) ∧ keepString context candidate = some after := by
  induction rounds generalizing stop with
  | zero => simp [cutString] at h
  | succ rounds ih =>
    simp only [cutString] at h
    split at h
    · exact absurd h (by simp)
    split at h
    · next hkeep =>
      simp only [Option.some.injEq, Prod.mk.injEq] at h
      obtain ⟨rfl, rfl⟩ := h
      exact ⟨⟨stop, rfl⟩, hkeep⟩
    · exact ih h

theorem cutString_eq_none {rounds stop : Nat} (hstop : 1 ≤ stop) (hle : stop ≤ rounds)
    (h : cutString context value rounds stop = none) : keepString context (value.take 1 ++ stringTruncatedSuffix) = none := by
  induction rounds generalizing stop with
  | zero => omega
  | succ rounds ih =>
    simp only [cutString] at h
    rw [if_neg (by omega)] at h
    split at h
    · exact absurd h (by simp)
    · next hkeep =>
      by_cases hone : stop = 1
      · rwa [hone] at hkeep
      · exact ih (by omega) (by omega) h

theorem truncateString_of_keep {after : Context} (h : keepString context value = some after) :
    truncateString context value = ⟨value, false, after⟩ := by
  simp [truncateString, h]

theorem suffix_bytes : getUtf8ByteLength stringTruncatedSuffix = 15 := by decide

theorem truncatedBudget_cut (context : Context) (h : 15 < context.remainingBytes) :
    keepString context (truncatedBudget.take 1 ++ stringTruncatedSuffix) ≠ none := by
  have hbytes : getUtf8ByteLength (truncatedBudget.take 1 ++ stringTruncatedSuffix) = 16 := by decide
  rw [keepString, consumeSnapshotBudget, hbytes, if_pos (by decide), if_pos (by omega)]
  simp

/-- A string that is not kept comes back only as the marker for a spent budget, and that one only while no more is left
than the suffix needs. -/
theorem truncateString_eq_self (h : keepString context value = none) :
    (truncateString context value).value = value ↔
      value = truncatedBudget ∧ context.remainingBytes ≤ getUtf8ByteLength stringTruncatedSuffix := by
  simp only [truncateString, h]
  split
  · next hle => exact ⟨fun heq => ⟨heq.symm, hle⟩, fun heq => heq.1.symm⟩
  next hlarge =>
  split
  · next candidate after hcut =>
    have hkeep := (cutString_eq_some hcut).2
    constructor
    · rintro rfl
      simp [h] at hkeep
    · exact fun heq => absurd heq.2 hlarge
  · next hcut =>
    refine ⟨fun heq => ?_, fun heq => absurd heq.2 hlarge⟩
    obtain rfl : value = truncatedBudget := heq.symm
    rw [suffix_bytes] at hlarge
    have hnone := cutString_eq_none (by decide) (Nat.le_refl _) hcut
    exact absurd hnone (truncatedBudget_cut context (by omega))

theorem truncateString_short (h : keepString context value = none)
    (hle : context.remainingBytes ≤ getUtf8ByteLength stringTruncatedSuffix) :
    truncateString context value = ⟨truncatedBudget, true, context⟩ := by
  simp [truncateString, h, hle]

/-! ## The marker of an array -/

theorem decimal_spec {n : Nat} (h : 0 < n) :
    decimal n ≠ [] ∧ (decimal n).head? ≠ some 48 ∧ ∀ code ∈ decimal n, 48 ≤ code ∧ code ≤ 57 := by
  have hne : Nat.digits 10 n ≠ [] := Nat.digits_ne_nil_iff_ne_zero.mpr (by omega)
  rw [decimal, if_neg (by omega)]
  refine ⟨by simpa using hne, ?_, ?_⟩
  · have hlast := Nat.getLast_digit_ne_zero 10 (m := n) (by omega)
    rw [List.head?_map, List.head?_reverse, List.getLast?_eq_some_getLast hne]
    simp [hlast]
  · intro code hcode
    obtain ⟨digit, hdigit, rfl⟩ := List.mem_map.mp hcode
    have := Nat.digits_lt_base (by decide) (List.mem_reverse.mp hdigit)
    omega

theorem isTruncatedItems_truncatedItems {count : Nat} (h : 0 < count) : isTruncatedItems (truncatedItems count) = true := by
  obtain ⟨hne, hhead, hdigits⟩ := decimal_spec h
  have hstart : Text.startsWith (truncatedItems count) "[truncated " = true := by
    rw [Text.startsWith, List.isPrefixOf_iff_prefix, truncatedItems, List.append_assoc]
    exact List.prefix_append ..
  have hend : Text.endsWith (truncatedItems count) " items]" = true := by
    rw [Text.endsWith, List.isSuffixOf_iff_suffix]
    exact List.suffix_append ..
  have hlength : (truncatedItems count).length - 7 = (Text.of "[truncated " ++ decimal count).length := by
    rw [truncatedItems, List.length_append, show (Text.of " items]").length = 7 by decide]
    omega
  have hcount : ((truncatedItems count).take ((truncatedItems count).length - 7)).drop 11 = decimal count := by
    rw [hlength, truncatedItems, List.take_left, show 11 = (Text.of "[truncated ").length by decide, List.drop_left]
  have hzero : Text.startsWith (decimal count) "0" = false := by
    rw [Bool.eq_false_iff, ne_eq, Text.startsWith, List.isPrefixOf_iff_prefix]
    rintro ⟨rest, hrest⟩
    rw [← hrest] at hhead
    exact hhead rfl
  have hall : (decimal count).all (fun code => 48 ≤ code && code ≤ 57) = true := by
    rw [List.all_eq_true]
    exact fun code hcode => by simpa using hdigits code hcode
  simp only [isTruncatedItems, hstart, hend, hcount, hzero, hall]
  simpa using hne

/-! ## Reasons -/

variable {reasons : List Text}

theorem mem_addCaptureReason {reason r : Text} :
    r ∈ addCaptureReason reasons reason ↔ r ∈ reasons ∨ r = reason := by
  rw [addCaptureReason]
  split
  · next h =>
    rw [List.contains_iff_mem] at h
    exact ⟨.inl, fun hr => hr.elim id fun heq => heq ▸ h⟩
  · simp

theorem mem_addCaptureReasons {more : List Text} {r : Text} :
    r ∈ addCaptureReasons reasons more ↔ r ∈ reasons ∨ r ∈ more := by
  induction more generalizing reasons with
  | nil => simp [addCaptureReasons]
  | cons reason more ih =>
    rw [addCaptureReasons, List.foldl_cons, ← addCaptureReasons, ih, mem_addCaptureReason, List.mem_cons, or_assoc]

theorem addCaptureReasons_of_subset {more : List Text} (h : more ⊆ reasons) :
    addCaptureReasons reasons more = reasons := by
  induction more with
  | nil => rfl
  | cons reason more ih =>
    obtain ⟨hreason, hmore⟩ := List.cons_subset.mp h
    rw [addCaptureReasons, List.foldl_cons, addCaptureReason, if_pos (by simpa using hreason)]
    exact ih hmore

/-- Reasons are noted once each, and a capture of JSON data knows six of them. -/
structure WellNoted (reasons : List Text) : Prop where
  nodup : reasons.Nodup
  known : reasons ⊆ [Reason.aggregateBudgetExhausted, Reason.stringTruncated, Reason.depthReached, Reason.arrayTruncated,
    Reason.objectKeyUnsupported, Reason.objectKeysTruncated]

theorem WellNoted.nil : WellNoted [] := ⟨List.nodup_nil, List.nil_subset _⟩

theorem wellNoted_budget : WellNoted [Reason.aggregateBudgetExhausted] := ⟨List.nodup_singleton _, by decide⟩

theorem wellNoted_depth : WellNoted [Reason.depthReached] := ⟨List.nodup_singleton _, by decide⟩

theorem WellNoted.add (h : WellNoted reasons) {reason : Text} (hreason : WellNoted [reason]) :
    WellNoted (addCaptureReason reasons reason) := by
  refine ⟨?_, fun r hr => ?_⟩
  · rw [addCaptureReason]
    split
    · exact h.nodup
    · next hnew =>
      rw [List.contains_iff_mem] at hnew
      exact h.nodup.append hreason.nodup (by simpa using hnew)
  · rcases mem_addCaptureReason.mp hr with hr | rfl
    · exact h.known hr
    · exact hreason.known List.mem_cons_self

theorem WellNoted.addAll {more : List Text} (h : WellNoted reasons) (hmore : WellNoted more) :
    WellNoted (addCaptureReasons reasons more) := by
  have hknown := hmore.known
  clear hmore
  induction more generalizing reasons with
  | nil => exact h
  | cons reason more ih =>
    obtain ⟨hreason, hrest⟩ := List.cons_subset.mp hknown
    exact ih (h.add ⟨List.nodup_singleton _, by simpa using hreason⟩) hrest

theorem WellNoted.length_le (h : WellNoted reasons) : reasons.length ≤ 6 :=
  (h.nodup.subperm h.known).length_le

theorem WellNoted.reason_length (h : WellNoted reasons) : ∀ r ∈ reasons, r.length ≤ 128 := by
  intro r hr
  have hknown := h.known hr
  simp only [Reason.aggregateBudgetExhausted, Reason.stringTruncated, Reason.depthReached, Reason.arrayTruncated,
    Reason.objectKeyUnsupported, Reason.objectKeysTruncated, List.mem_cons, List.not_mem_nil, or_false] at hknown
  rcases hknown with rfl | rfl | rfl | rfl | rfl | rfl <;> rw [Text.of_ofList] <;> decide

theorem wellNoted_snapshotString (input : Text) (context : Context) :
    WellNoted (snapshotString input context : Snapshot (Json ν)).reasons := by
  simp only [snapshotString]
  split
  · split <;> exact ⟨List.nodup_singleton _, by decide⟩
  · exact .nil

theorem wellNoted_closeArray {length limit : Nat} {taken : Snapshot (List (Json ν))} (h : WellNoted taken.reasons) :
    WellNoted (closeArray length limit taken).reasons := by
  rw [closeArray]
  split
  · exact h.add ⟨List.nodup_singleton _, by decide⟩
  · exact h

mutual

theorem wellNoted_snapshotObjectValue (preserve : Bool) (input : Json ν) (depth : Nat) (context : Context) :
    WellNoted (snapshotObjectValue preserve input depth context).reasons := by
  cases input with
  | null | bool _ | num _ =>
    simp only [snapshotObjectValue]
    split
    · exact wellNoted_budget
    · exact .nil
  | str value =>
    simp only [snapshotObjectValue]
    split
    · exact wellNoted_budget
    · exact wellNoted_snapshotString ..
  | arr items =>
    simp only [snapshotObjectValue]
    split
    · exact wellNoted_budget
    split
    · exact wellNoted_depth
    · exact wellNoted_closeArray (wellNoted_snapshotItems preserve items _ _ _ _ .nil)
  | obj properties =>
    simp only [snapshotObjectValue]
    split
    · exact wellNoted_budget
    split
    · exact wellNoted_depth
    · exact wellNoted_snapshotProperties preserve properties _ _ _ _ .nil

theorem wellNoted_snapshotItems (preserve : Bool) (items : List (Json ν)) (limit depth : Nat) (reasons : List Text)
    (context : Context) (h : WellNoted reasons) :
    WellNoted (snapshotItems preserve items limit depth reasons context).reasons := by
  match items, limit with
  | [], _ => exact h
  | _ :: _, 0 => exact h
  | item :: items, limit + 1 =>
    simp only [snapshotItems]
    exact wellNoted_snapshotItems preserve items limit depth _ _ (h.addAll (wellNoted_snapshotObjectValue ..))

theorem wellNoted_snapshotProperties (preserve : Bool) (properties : List (Text × Json ν)) (copiedKeys depth : Nat)
    (reasons : List Text) (context : Context) (h : WellNoted reasons) :
    WellNoted (snapshotProperties preserve properties copiedKeys depth reasons context).reasons := by
  match properties with
  | [] => exact h
  | (key, value) :: properties =>
    have hvalue := h.addAll (wellNoted_snapshotObjectValue preserve value depth context)
    simp only [snapshotProperties]
    split
    · exact wellNoted_snapshotProperties preserve properties copiedKeys depth _ _
        (h.add ⟨List.nodup_singleton _, by decide⟩)
    split
    · show WellNoted (if _ then _ else _)
      split
      · exact hvalue.add ⟨List.nodup_singleton _, by decide⟩
      · exact hvalue
    · exact wellNoted_snapshotProperties preserve properties _ depth _ _ hvalue

end

/-! ## Excerpts -/

/-- Every string is one of the fixed markers or a prefix of its original, possibly with the suffix behind it. -/
inductive Excerpt : Json ν → Json ν → Prop
  | null : Excerpt .null .null
  | bool (value : Bool) : Excerpt (.bool value) (.bool value)
  | num (value : ν) : Excerpt (.num value) (.num value)
  | budget (input : Json ν) : Excerpt (.str truncatedBudget) input
  | nested (input : Json ν) : Excerpt (.str truncatedNestedData) input
  | whole (value : Text) : Excerpt (.str value) (.str value)
  | cut (value : Text) (kept : Nat) : Excerpt (.str (value.take kept ++ stringTruncatedSuffix)) (.str value)
  | arr {copies items : List (Json ν)} (h : List.Forall₂ Excerpt copies items) : Excerpt (.arr copies) (.arr items)
  | truncated {copies items : List (Json ν)} {kept : Nat} (hkept : kept < items.length)
    (h : List.Forall₂ Excerpt copies (items.take kept)) :
    Excerpt (.arr (copies ++ [.str (truncatedItems (items.length - kept))])) (.arr items)
  | obj {copies kept properties : List (Text × Json ν)} (hkept : kept.Sublist properties)
    (hkeys : copies.map Prod.fst = kept.map Prod.fst)
    (h : List.Forall₂ Excerpt (copies.map Prod.snd) (kept.map Prod.snd)) : Excerpt (.obj copies) (.obj properties)

theorem excerpt_snapshotString (input : Text) (context : Context) :
    Excerpt (snapshotString input context : Snapshot (Json ν)).value (.str input) := by
  simp only [snapshotString, truncateString]
  split
  · exact .whole input
  split
  · exact .budget _
  split
  · next hcut =>
    obtain ⟨⟨kept, rfl⟩, -⟩ := cutString_eq_some hcut
    exact .cut input kept
  · exact .budget _

theorem excerpt_closeArray {items : List (Json ν)} {limit : Nat} {taken : Snapshot (List (Json ν))}
    (h : List.Forall₂ Excerpt taken.value (items.take limit)) :
    Excerpt (closeArray items.length limit taken).value (.arr items) := by
  rw [closeArray]
  split
  · next hlimit => exact .truncated hlimit h
  · next hlimit =>
    rw [List.take_of_length_le (by omega)] at h
    exact .arr h

mutual

theorem excerpt_snapshotObjectValue (preserve : Bool) (input : Json ν) (depth : Nat) (context : Context) :
    Excerpt (snapshotObjectValue preserve input depth context).value input := by
  cases input with
  | null | bool _ | num _ =>
    simp only [snapshotObjectValue]
    split
    · exact .budget _
    · constructor
  | str value =>
    simp only [snapshotObjectValue]
    split
    · exact .budget _
    · exact excerpt_snapshotString ..
  | arr items =>
    simp only [snapshotObjectValue]
    split
    · exact .budget _
    split
    · exact .nested _
    · exact excerpt_closeArray (excerpt_snapshotItems preserve items _ _ _ _)
  | obj properties =>
    simp only [snapshotObjectValue]
    split
    · exact .budget _
    split
    · exact .nested _
    · obtain ⟨kept, hkept, hkeys, h⟩ := excerpt_snapshotProperties preserve properties 0 (depth + 1) [] _
      exact .obj hkept hkeys h

theorem excerpt_snapshotItems (preserve : Bool) (items : List (Json ν)) (limit depth : Nat) (reasons : List Text)
    (context : Context) :
    List.Forall₂ Excerpt (snapshotItems preserve items limit depth reasons context).value (items.take limit) := by
  match items, limit with
  | [], _ =>
    rw [List.take_nil]
    exact .nil
  | _ :: _, 0 => exact .nil
  | item :: items, limit + 1 =>
    simp only [snapshotItems, List.take_succ_cons]
    exact .cons (excerpt_snapshotObjectValue ..) (excerpt_snapshotItems preserve items limit depth _ _)

theorem excerpt_snapshotProperties (preserve : Bool) (properties : List (Text × Json ν)) (copiedKeys depth : Nat)
    (reasons : List Text) (context : Context) :
    let copies := (snapshotProperties preserve properties copiedKeys depth reasons context).value
    ∃ kept : List (Text × Json ν), kept.Sublist properties ∧ copies.map Prod.fst = kept.map Prod.fst ∧
      List.Forall₂ Excerpt (copies.map Prod.snd) (kept.map Prod.snd) := by
  match properties with
  | [] => exact ⟨[], List.nil_sublist _, rfl, .nil⟩
  | (key, value) :: properties =>
    have hvalue := excerpt_snapshotObjectValue preserve value depth context
    simp only [snapshotProperties]
    split
    · obtain ⟨kept, hkept, h⟩ := excerpt_snapshotProperties preserve properties copiedKeys depth
        (addCaptureReason reasons Reason.objectKeyUnsupported) context
      exact ⟨kept, hkept.cons _, h⟩
    split
    · exact ⟨[(key, value)], (List.nil_sublist _).cons_cons _, rfl, .cons hvalue .nil⟩
    · obtain ⟨kept, hkept, hkeys, h⟩ := excerpt_snapshotProperties preserve properties (copiedKeys + 1) depth
        (addCaptureReasons reasons (snapshotObjectValue preserve value depth context).reasons)
        (snapshotObjectValue preserve value depth context).context
      exact ⟨(key, value) :: kept, hkept.cons_cons _, congrArg (key :: ·) hkeys, .cons hvalue h⟩

end

end Veryfront.Agent.AgUi.MessageFinish
