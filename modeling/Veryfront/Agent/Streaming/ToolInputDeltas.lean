import Mathlib.Data.List.TakeWhile
import Veryfront.Agent.Streaming.ToolInput
import Veryfront.Lib.JsonGrammar

/-!
# Tool input that is only appended

When each delta goes on where the text before it ends, the merge is to give the text that was sent. It does unless a delta
reads as sent again: then what it repeats is dropped.
-/

namespace Veryfront.Agent.Streaming

open Lib

variable {current delta candidate : JsText}

/-- A delta without leading white space, also with a brace in front of a leading quote. -/
def candidateDeltas (nextDelta : JsText) : List JsText :=
  if [quote].isPrefixOf (trimStart nextDelta) then [trimStart nextDelta, openBrace :: trimStart nextDelta] else [trimStart nextDelta]

/-- The candidate starts with the whole text, or with four units or more from its end. -/
def Repeats (current candidate : JsText) : Prop :=
  current <+: candidate ∨ ∃ start, start <+: candidate ∧ start <:+ current ∧ MIN_OVERLAP_DEDUP_LENGTH ≤ start.length

/-- The delta reads as sent again. The one that goes on after a lone brace with a quote does no harm. -/
def Resends (current delta : JsText) : Prop :=
  MIN_OVERLAP_DEDUP_LENGTH ≤ delta.length ∧ (∃ candidate ∈ candidateDeltas delta, Repeats current candidate) ∧
    ¬ (current = [openBrace] ∧ [quote] <+: delta)

theorem mergeOverlap_some {overlap : Nat} {merged : JsText} (h : mergeOverlap current candidate overlap = some merged)
    (hoverlap : overlap ≤ candidate.length) :
    merged.length + MIN_OVERLAP_DEDUP_LENGTH ≤ current.length + candidate.length ∧ current <+: merged := by
  induction overlap with
  | zero => cases h
  | succ overlap ih =>
    rw [mergeOverlap] at h
    split at h
    · cases h
    · rename_i hlong
      split at h
      · obtain rfl := Option.some.inj h
        rw [List.length_append, List.length_drop]
        exact ⟨by omega, List.prefix_append _ _⟩
      · exact ih h (Nat.le_of_succ_le hoverlap)

theorem mergeOverlap_isSome {overlap : Nat} : (mergeOverlap current candidate overlap).isSome ↔
    ∃ length ≤ overlap, MIN_OVERLAP_DEDUP_LENGTH ≤ length ∧ candidate.take length <:+ current := by
  induction overlap with
  | zero => simp [mergeOverlap, MIN_OVERLAP_DEDUP_LENGTH]
  | succ overlap ih =>
    rw [mergeOverlap]
    split
    · rename_i hshort
      refine iff_of_false (by simp) ?_
      rintro ⟨length, hle, hlong, -⟩
      omega
    · rename_i hlong
      split
      · rename_i hsuffix
        exact iff_of_true rfl ⟨overlap + 1, Nat.le_refl _, Nat.le_of_not_lt hlong, List.isSuffixOf_iff_suffix.mp hsuffix⟩
      · rename_i hsuffix
        rw [ih]
        constructor
        · rintro ⟨length, hle, hrest⟩
          exact ⟨length, Nat.le_succ_of_le hle, hrest⟩
        · rintro ⟨length, hle, hlong, hhere⟩
          rcases Nat.le_or_eq_of_le_succ hle with hle | rfl
          · exact ⟨length, hle, hlong, hhere⟩
          · exact absurd (List.isSuffixOf_iff_suffix.mpr hhere) hsuffix

theorem mergeCandidate_isSome : (mergeCandidate current candidate).isSome ↔ Repeats current candidate := by
  rw [mergeCandidate]
  split
  · rename_i hsame
    exact iff_of_true rfl (.inl (hsame ▸ List.prefix_rfl))
  · split
    · rename_i hprefixed
      exact iff_of_true rfl (.inl (List.isPrefixOf_iff_prefix.mp hprefixed))
    · rename_i hnot
      rw [mergeOverlap_isSome]
      constructor
      · rintro ⟨length, hle, hlong, hsuffix⟩
        refine .inr ⟨_, List.take_prefix length candidate, hsuffix, ?_⟩
        rw [List.length_take]
        omega
      · rintro (hprefixed | ⟨start, hfront, hsuffix, hlong⟩)
        · exact absurd (List.isPrefixOf_iff_prefix.mpr hprefixed) hnot
        · have hfits := hfront.length_le
          have hfits' := hsuffix.length_le
          exact ⟨start.length, by omega, hlong, List.prefix_iff_eq_take.mp hfront ▸ hsuffix⟩

/-- A match drops something, but for the brace in front of the whole candidate. -/
theorem mergeCandidate_length {merged : JsText} (hne : current ≠ []) (h : mergeCandidate current candidate = some merged) :
    merged ≠ [] ∧ (merged.length + 2 ≤ current.length + candidate.length ∨
      merged = candidate ∧ ∃ u rest, current = [u] ∧ candidate = u :: rest) := by
  have hpos := List.length_pos_iff.mpr hne
  rw [mergeCandidate] at h
  split at h
  · rename_i hsame
    obtain rfl := Option.some.inj h
    refine ⟨hne, ?_⟩
    rw [hsame]
    by_cases hone : current.length = 1
    · obtain ⟨u, rfl⟩ := List.length_eq_one_iff.mp hone
      exact .inr ⟨rfl, u, [], rfl, rfl⟩
    · exact .inl (by omega)
  · split at h
    · rename_i hprefixed
      obtain rfl := Option.some.inj h
      obtain ⟨rest, rfl⟩ := List.isPrefixOf_iff_prefix.mp hprefixed
      refine ⟨by simp [hne], ?_⟩
      by_cases hone : current.length = 1
      · obtain ⟨u, rfl⟩ := List.length_eq_one_iff.mp hone
        exact .inr ⟨rfl, u, rest, rfl, rfl⟩
      · exact .inl (by omega)
    · obtain ⟨hlength, hfront⟩ := mergeOverlap_some h (Nat.min_le_right _ _)
      refine ⟨fun hnil => hne (List.prefix_nil.mp (hnil ▸ hfront)), .inl ?_⟩
      have : MIN_OVERLAP_DEDUP_LENGTH = 4 := rfl
      omega

theorem trimStart_length (text : JsText) : (trimStart text).length ≤ text.length := (List.dropWhile_suffix _).length_le

theorem mem_candidateDeltas (h : candidate ∈ candidateDeltas delta) :
    candidate = trimStart delta ∨ [quote] <+: trimStart delta ∧ candidate = openBrace :: trimStart delta := by
  rw [candidateDeltas] at h
  split at h
  · rename_i hquote
    rcases List.mem_cons.mp h with rfl | h
    · exact .inl rfl
    · exact .inr ⟨List.isPrefixOf_iff_prefix.mp hquote, List.mem_singleton.mp h⟩
  · exact .inl (List.mem_singleton.mp h)

theorem trimStart_cons {u : UInt16} (h : isTrimmed u = false) (rest : JsText) : trimStart (u :: rest) = u :: rest := by
  rw [trimStart, List.dropWhile_cons_of_neg (by rw [h]; exact Bool.false_ne_true)]

/-! ## One delta -/

def GoesOn (current delta : JsText) : Prop :=
  current ≠ [] ∧ (current = emptyObject → ∀ candidate ∈ candidateDeltas delta, ¬ [openBrace] <+: candidate)

theorem mergeToolInputDelta_anew {found : JsText} (hcurrent : current = emptyObject ∨ current = [])
    (hfound : (candidateDeltas delta).find? (fun candidate => [openBrace].isPrefixOf candidate) = some found) :
    mergeToolInputDelta current delta = found := by
  have hreopened : (if current = emptyObject || current = [] then
      (candidateDeltas delta).find? fun candidate => [openBrace].isPrefixOf candidate else none) = some found := by
    rw [hfound, if_pos (by simpa using hcurrent)]
  simp only [mergeToolInputDelta]
  rw [← candidateDeltas, hreopened]

theorem mergeToolInputDelta_eq (h : GoesOn current delta) (hdelta : delta ≠ []) :
    mergeToolInputDelta current delta =
      if delta.length < MIN_OVERLAP_DEDUP_LENGTH then current ++ delta
      else ((candidateDeltas delta).findSome? (mergeCandidate current)).getD (current ++ delta) := by
  have hreopened : (if current = emptyObject || current = [] then
      (candidateDeltas delta).find? fun candidate => [openBrace].isPrefixOf candidate else none) = none := by
    split
    · rename_i hempty
      have hempty : current = emptyObject := by simpa [h.1] using hempty
      refine List.find?_eq_none.mpr fun candidate hmem hbrace => ?_
      exact h.2 hempty candidate hmem (List.isPrefixOf_iff_prefix.mp hbrace)
    · rfl
  simp only [mergeToolInputDelta]
  rw [← candidateDeltas, hreopened]
  simp only [if_neg hdelta, if_neg h.1]

theorem mergeToolInputDelta_append (h : GoesOn current delta) (hdelta : delta ≠ []) (hresends : ¬ Resends current delta) :
    mergeToolInputDelta current delta = current ++ delta := by
  rw [mergeToolInputDelta_eq h hdelta]
  split
  · rfl
  · rename_i hlong
    have hlong := Nat.le_of_not_lt hlong
    by_cases hany : ∃ candidate ∈ candidateDeltas delta, Repeats current candidate
    · -- a lone brace and the quote after it
      have hlone : current = [openBrace] ∧ [quote] <+: delta := by
        by_contra hnot
        exact hresends ⟨hlong, hany, hnot⟩
      obtain ⟨rfl, rest, rfl⟩ := hlone
      have htrim : trimStart ([quote] ++ rest) = [quote] ++ rest := trimStart_cons (by decide) rest
      have hfirst : mergeCandidate [openBrace] ([quote] ++ rest) = none := by
        rw [← Option.not_isSome_iff_eq_none, mergeCandidate_isSome]
        rintro (hfront | ⟨start, -, hsuffix, hfour⟩)
        · exact absurd (List.cons_prefix_cons.mp hfront).1 (by decide)
        · exact absurd (Nat.le_trans hfour hsuffix.length_le) (by decide)
      have hsecond : mergeCandidate [openBrace] (openBrace :: ([quote] ++ rest)) = some (openBrace :: ([quote] ++ rest)) := by
        rw [mergeCandidate, if_neg (by simp), if_pos (by simp)]
      rw [candidateDeltas, htrim, if_pos (by simp), List.findSome?_cons, hfirst]
      simp only [List.findSome?_cons, hsecond]
      rfl
    · rw [List.findSome?_eq_none_iff.mpr fun candidate hmem => ?_]
      · rfl
      · rw [← Option.not_isSome_iff_eq_none, mergeCandidate_isSome]
        exact fun hrepeats => hany ⟨candidate, hmem, hrepeats⟩

theorem mergeToolInputDelta_short (h : GoesOn current delta) (hdelta : delta ≠ []) (hresends : Resends current delta) :
    mergeToolInputDelta current delta ≠ [] ∧
      (mergeToolInputDelta current delta).length < current.length + delta.length := by
  obtain ⟨hlong, ⟨candidate, hmem, hrepeats⟩, hlone⟩ := hresends
  rw [mergeToolInputDelta_eq h hdelta, if_neg (Nat.not_lt_of_le hlong)]
  cases hfound : (candidateDeltas delta).findSome? (mergeCandidate current) with
  | none =>
    have hnone := List.findSome?_eq_none_iff.mp hfound candidate hmem
    rw [← Option.not_isSome_iff_eq_none, mergeCandidate_isSome] at hnone
    exact absurd hrepeats hnone
  | some merged =>
    obtain ⟨found, hmem, hmerged⟩ := List.exists_of_findSome?_eq_some hfound
    have hpos := List.length_pos_iff.mpr h.1
    have htrim := trimStart_length delta
    have hfour : 4 ≤ delta.length := hlong
    obtain ⟨hne, hlength⟩ := mergeCandidate_length h.1 hmerged
    refine ⟨hne, ?_⟩
    rw [Option.getD_some]
    rcases mem_candidateDeltas hmem with rfl | ⟨hquote, rfl⟩
    · rcases hlength with hlength | ⟨rfl, -⟩
      · omega
      · omega
    · rw [List.length_cons] at hlength
      rcases hlength with hlength | ⟨rfl, u, rest, rfl, hsame⟩
      · omega
      · obtain ⟨rfl, rfl⟩ := List.cons.inj hsame
        -- white space was dropped
        have hspace : trimStart delta ≠ delta := fun heq => hlone ⟨rfl, heq ▸ hquote⟩
        have hshorter : (trimStart delta).length ≠ delta.length := fun heq =>
          hspace ((List.dropWhile_suffix _).eq_of_length heq)
        rw [List.length_cons, List.length_singleton]
        omega

theorem mergeToolInputDelta_le (hcurrent : current ≠ []) (hdelta : delta ≠ []) :
    mergeToolInputDelta current delta ≠ [] ∧
      (mergeToolInputDelta current delta).length ≤ current.length + delta.length := by
  by_cases h : GoesOn current delta
  · by_cases hresends : Resends current delta
    · obtain ⟨hne, hlength⟩ := mergeToolInputDelta_short h hdelta hresends
      exact ⟨hne, Nat.le_of_lt hlength⟩
    · rw [mergeToolInputDelta_append h hdelta hresends, List.length_append]
      exact ⟨by simp [hcurrent], Nat.le_refl _⟩
  · have hempty : current = emptyObject ∧ ∃ candidate ∈ candidateDeltas delta, [openBrace] <+: candidate := by
      by_contra hnot
      exact h ⟨hcurrent, fun hempty candidate hmem hbrace => hnot ⟨hempty, candidate, hmem, hbrace⟩⟩
    obtain ⟨rfl, candidate, hmem, hbrace⟩ := hempty
    have hsome : ((candidateDeltas delta).find? fun candidate => [openBrace].isPrefixOf candidate).isSome :=
      List.find?_isSome.mpr ⟨candidate, hmem, List.isPrefixOf_iff_prefix.mpr hbrace⟩
    obtain ⟨found, hfound⟩ := Option.isSome_iff_exists.mp hsome
    have hmerge := mergeToolInputDelta_anew (.inl rfl) hfound
    have hfront : [openBrace].isPrefixOf found = true := List.find?_some hfound
    have htrim := trimStart_length delta
    rw [hmerge]
    refine ⟨fun hnil => by simp [hnil] at hfront, ?_⟩
    show found.length ≤ 2 + delta.length
    rcases mem_candidateDeltas (List.mem_of_find?_eq_some hfound) with rfl | ⟨-, rfl⟩
    · omega
    · rw [List.length_cons]
      omega

/-! ## All deltas -/

theorem foldl_mergeToolInputDelta_le (deltas : List JsText) (hcurrent : current ≠ []) (hne : ∀ delta ∈ deltas, delta ≠ []) :
    (deltas.foldl mergeToolInputDelta current).length ≤ current.length + deltas.flatten.length := by
  induction deltas generalizing current with
  | nil => exact Nat.le_refl _
  | cons delta deltas ih =>
    obtain ⟨hmerged, hlength⟩ := mergeToolInputDelta_le hcurrent (hne delta List.mem_cons_self)
    have hrest := ih hmerged fun delta hmem => hne delta (List.mem_cons_of_mem _ hmem)
    rw [List.foldl_cons, List.flatten_cons, List.length_append]
    omega

theorem isTrimmed_of_isWhitespace {u : UInt16} (h : Json.isWhitespace u = true) : isTrimmed u = true := by
  simp only [Json.isWhitespace, Bool.or_eq_true, decide_eq_true_eq] at h
  rcases h with ((rfl | rfl) | rfl) | rfl <;> decide

theorem goesOn_of_objectText {rest : JsText} (hcurrent : current ≠ []) (h : Json.ObjectText (current ++ delta ++ rest)) :
    GoesOn current delta := by
  refine ⟨hcurrent, ?_⟩
  rintro rfl candidate hmem hbrace
  have hspace : ∀ u ∈ delta, isTrimmed u = true := fun u hu =>
    isTrimmed_of_isWhitespace ((Json.ObjectText.closed h) u (List.mem_append_left _ hu))
  have htrim : trimStart delta = [] := List.dropWhile_eq_nil_iff.mpr hspace
  rcases mem_candidateDeltas hmem with rfl | ⟨hquote, -⟩
  · rw [htrim] at hbrace
    simp at hbrace
  · rw [htrim] at hquote
    simp at hquote

theorem foldl_mergeToolInputDelta_iff (deltas : List JsText) (hcurrent : current ≠ []) (hne : ∀ delta ∈ deltas, delta ≠ [])
    (h : Json.ObjectText (current ++ deltas.flatten)) :
    deltas.foldl mergeToolInputDelta current = current ++ deltas.flatten ↔
      ∀ before delta after, deltas = before ++ delta :: after → ¬ Resends (current ++ before.flatten) delta := by
  induction deltas generalizing current with
  | nil => exact iff_of_true (List.append_nil current).symm fun before _ _ heq => absurd heq (by simp)
  | cons delta deltas ih =>
    have hdelta := hne delta List.mem_cons_self
    have hlater : ∀ delta ∈ deltas, delta ≠ [] := fun delta hmem => hne delta (List.mem_cons_of_mem _ hmem)
    rw [List.flatten_cons, ← List.append_assoc] at h ⊢
    have hgoes := goesOn_of_objectText hcurrent h
    rw [List.foldl_cons]
    by_cases hresends : Resends current delta
    · -- what is dropped is not made up for
      obtain ⟨hmerged, hshort⟩ := mergeToolInputDelta_short hgoes hdelta hresends
      refine iff_of_false (fun heq => ?_) fun hnone => hnone [] delta deltas rfl (by simpa using hresends)
      have hlength := foldl_mergeToolInputDelta_le deltas hmerged hlater
      rw [heq, List.length_append, List.length_append] at hlength
      omega
    · rw [mergeToolInputDelta_append hgoes hdelta hresends, ih (by simp [hcurrent]) hlater h]
      constructor
      · intro hrest before next after heq
        cases before with
        | nil =>
          obtain ⟨rfl, -⟩ := List.cons.inj heq
          simpa using hresends
        | cons first before =>
          obtain ⟨rfl, htail⟩ := List.cons.inj heq
          have := hrest before next after htail
          rwa [List.append_assoc, ← List.flatten_cons] at this
      · rintro hall before next after rfl
        have := hall (delta :: before) next after rfl
        rwa [List.flatten_cons, ← List.append_assoc] at this

/-- The deltas of an object merge to its text exactly when none of them reads as sent again. -/
theorem mergeToolInputDelta_text {text : JsText} (hobject : Json.ObjectText text) (hbrace : [openBrace] <+: text)
    (deltas : List JsText) (hne : ∀ delta ∈ deltas, delta ≠ []) (htext : deltas.flatten = text) :
    deltas.foldl mergeToolInputDelta [] = text ↔
      ∀ before delta after, deltas = before ++ delta :: after → before ≠ [] → ¬ Resends before.flatten delta := by
  subst htext
  cases deltas with
  | nil => simp at hbrace
  | cons first deltas =>
    have hfirst : [openBrace] <+: first := by
      obtain ⟨u, first, rfl⟩ := List.exists_cons_of_ne_nil (hne first List.mem_cons_self)
      obtain ⟨rest, hrest⟩ := hbrace
      rw [List.flatten_cons, List.singleton_append, List.cons_append] at hrest
      obtain ⟨rfl, -⟩ := List.cons.inj hrest
      exact ⟨first, rfl⟩
    have hstart : mergeToolInputDelta [] first = first := by
      obtain ⟨rest, rfl⟩ := hfirst
      have htrim : trimStart ([openBrace] ++ rest) = [openBrace] ++ rest := trimStart_cons (by decide) rest
      have hcandidates : candidateDeltas ([openBrace] ++ rest) = [[openBrace] ++ rest] := by
        rw [candidateDeltas, htrim, if_neg]
        simp [List.isPrefixOf, quote, openBrace]
      refine mergeToolInputDelta_anew (.inr rfl) ?_
      rw [hcandidates, List.find?_cons_of_pos (by simp)]
    rw [List.foldl_cons, hstart, List.flatten_cons, foldl_mergeToolInputDelta_iff deltas (hne first List.mem_cons_self)
      (fun delta hmem => hne delta (List.mem_cons_of_mem _ hmem)) hobject]
    constructor
    · intro hrest before delta after heq hbefore
      obtain ⟨other, before, rfl⟩ := List.exists_cons_of_ne_nil hbefore
      obtain ⟨rfl, htail⟩ := List.cons.inj heq
      exact hrest before delta after htail
    · rintro hall before delta after rfl
      exact hall (first :: before) delta after rfl (List.cons_ne_nil _ _)

theorem objectText_member {name value : JsText} (hname : (name.all fun u => 32 ≤ u ∧ u ≠ 34 ∧ u ≠ 92) = true)
    (hvalue : (value.all fun u => 32 ≤ u ∧ u ≠ 34 ∧ u ≠ 92) = true) :
    Json.ObjectText (openBrace :: quote :: (name ++ quote :: 58 :: quote :: (value ++ [quote, closeBrace]))) := by
  have hplain {text : JsText} (h : (text.all fun u => 32 ≤ u ∧ u ≠ 34 ∧ u ≠ 92) = true) : Json.Characters text := by
    induction text with
    | nil => exact .nil
    | cons u text ih =>
      rw [List.all_cons, Bool.and_eq_true] at h
      exact .plain (of_decide_eq_true h.1) (ih h.2)
  have hnone : Json.Whitespace [] := fun _ h => absurd h List.not_mem_nil
  have hobject : Json.Object _ := .filled (.one (.named hnone (.quoted (hplain hname)) hnone hnone
    (.string (.quoted (hplain hvalue))) hnone))
  have htext := Json.ObjectText.spaced hnone hobject hnone
  simpa [quote, openBrace, closeBrace] using htext

/-- The value is the same four letters twice, cut in the middle. -/
def doubled : List JsText := [js "\x7b\"a\":\"abcd", js "abcd\"\x7d"]

theorem doubled_dropped : Json.ObjectText doubled.flatten ∧ [openBrace] <+: doubled.flatten ∧ (∀ delta ∈ doubled, delta ≠ []) ∧
    doubled.foldl mergeToolInputDelta [] ≠ doubled.flatten := by
  refine ⟨?_, by decide, by decide, by decide⟩
  exact @objectText_member (js "a") (js "abcdabcd") (by decide) (by decide)

theorem mergeToolInputDelta_text_cut :
    [js "\x7b\"a", js "\":\"ab", js "cd\"\x7d"].foldl mergeToolInputDelta [] = js "\x7b\"a\":\"abcd\"\x7d" ↔
      ∀ before delta after, [js "\x7b\"a", js "\":\"ab", js "cd\"\x7d"] = before ++ delta :: after → before ≠ [] →
        ¬ Resends before.flatten delta :=
  mergeToolInputDelta_text (@objectText_member (js "a") (js "abcd") (by decide) (by decide)) (by decide) _ (by decide) (by decide)

end Veryfront.Agent.Streaming
