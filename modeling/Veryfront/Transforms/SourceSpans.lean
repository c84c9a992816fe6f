import Veryfront.Lib.Splice
import Veryfront.Utils.Text
import Mathlib.Data.List.Sort

/-!
# Replacements of source spans

The module loader rewrites the import specifiers of a source. The spans are sorted, the last one first, and each
pair of neighbours is checked for an overlap. Then the spans are replaced one after another, back to front.
-/

namespace Veryfront.Transforms

open Veryfront.Lib

/-! ## Slices -/

/-- Where an offset of `slice` lies. A negative one counts from the end. -/
def sliceOffset (length : Nat) (offset : Int) : Nat :=
  if offset < 0 then (length + offset).toNat else min offset.toNat length

/-- `text.slice(start, end)` -/
def stringSlice (text : Text) (start end_ : Int) : Text :=
  (text.take (sliceOffset text.length end_)).drop (sliceOffset text.length start)

/-- `text.slice(start)` -/
def stringSliceFrom (text : Text) (start : Int) : Text := text.drop (sliceOffset text.length start)

/-! ## The model -/

structure SourceSpanReplacement where
  start : Int
  end_ : Int
  replacement : Text
  expected : Option Text := none
deriving DecidableEq

inductive SourceSpanError
  /-- A `RangeError`: the pair, with the smaller start first. -/
  | overlapping (earlier later : SourceSpanReplacement)
  /-- A `RangeError` -/
  | invalidSpan (start end_ : Int)
  /-- `INVALID_ARGUMENT` -/
  | expectedMismatch (expected : Text)
deriving DecidableEq

def SourceSpanError.message : SourceSpanError → Text
  | .overlapping earlier later =>
    Text.of s!"Overlapping source replacement spans: [{earlier.start},{earlier.end_}) and [{later.start},{later.end_})"
  | .invalidSpan start end_ => Text.of s!"Invalid source replacement span: {start}-{end_}"
  | .expectedMismatch expected => Text.of "Source replacement span did not match expected text: " ++ expected

def checkOverlaps : List SourceSpanReplacement → Except SourceSpanError Unit
  | later :: earlier :: rest =>
    if earlier.end_ > later.start then .error (.overlapping earlier later) else checkOverlaps (earlier :: rest)
  | _ => .ok ()

def checkSpan (source : Text) (span : SourceSpanReplacement) : Except SourceSpanError Unit :=
  if span.start < 0 ∨ span.end_ < span.start ∨ span.end_ > source.length then
    .error (.invalidSpan span.start span.end_)
  else match span.expected with
    | some expected =>
      if stringSlice source span.start span.end_ ≠ expected then .error (.expectedMismatch expected) else .ok ()
    | none => .ok ()

def replaceEach (source : Text) : List SourceSpanReplacement → Text → Except SourceSpanError Text
  | [], result => .ok result
  | span :: rest, result => do
    checkSpan source span
    replaceEach source rest (stringSlice result 0 span.start ++ span.replacement ++ stringSliceFrom result span.end_)

/-- The order of the sort: descending by start, and else the order given. -/
def startsBehind (left right : SourceSpanReplacement) : Prop := right.start ≤ left.start

instance : DecidableRel startsBehind := fun left right => inferInstanceAs (Decidable (right.start ≤ left.start))

def replaceSourceSpans (source : Text) (replacements : List SourceSpanReplacement) : Except SourceSpanError Text := do
  let sorted := replacements.insertionSort startsBehind
  checkOverlaps sorted
  replaceEach source sorted source

/-! ## What spans can do to each other -/

def Overlaps (a b : SourceSpanReplacement) : Prop := a.start < b.end_ ∧ b.start < a.end_

/-- The span is bad by itself, wherever it stands in the list. -/
def Faulty (source : Text) (span : SourceSpanReplacement) : Prop :=
  span.start < 0 ∨ span.end_ < span.start ∨ source.length < span.end_ ∨
    ∃ expected ∈ span.expected, stringSlice source span.start span.end_ ≠ expected

def SourceSpanReplacement.edit (span : SourceSpanReplacement) : Edit Nat where
  start := span.start.toNat
  stop := span.end_.toNat
  text := span.replacement

structure Simultaneous (source : Text) (replacements : List SourceSpanReplacement) : Prop where
  order : ∀ others, replacements.Perm others →
    (replaceSourceSpans source others).toOption = (replaceSourceSpans source replacements).toOption
  rejects : ¬ replacements.Pairwise (fun a b => a.start ≠ b.start ∧ ¬ Overlaps a b) →
    (replaceSourceSpans source replacements).toOption = none
  result : ∀ text, replaceSourceSpans source replacements = .ok text →
    text = Edit.substitute source (replacements.map (·.edit))

variable {source : Text} {span : SourceSpanReplacement} {spans : List SourceSpanReplacement}

/-! ## The check of one span -/

theorem checkSpan_cases (source : Text) (span : SourceSpanReplacement) :
    (Faulty source span ∧ ∃ error, checkSpan source span = .error error) ∨
    (¬ Faulty source span ∧ checkSpan source span = .ok ()) := by
  unfold checkSpan
  split
  · rename_i hbounds
    refine .inl ⟨?_, _, rfl⟩
    rcases hbounds with hstart | hend | hlength
    · exact .inl hstart
    · exact .inr (.inl hend)
    · exact .inr (.inr (.inl hlength))
  · rename_i hbounds
    rw [not_or, not_or] at hbounds
    obtain ⟨hstart, hend, hlength⟩ := hbounds
    split
    · rename_i expected hexpected
      split
      · rename_i hne
        exact .inl ⟨.inr (.inr (.inr ⟨expected, hexpected, hne⟩)), _, rfl⟩
      · rename_i heq
        refine .inr ⟨?_, rfl⟩
        rintro (h | h | h | ⟨other, hother, hne⟩)
        · exact hstart h
        · exact hend h
        · exact hlength h
        · rw [hexpected, Option.mem_some_iff] at hother
          exact heq (hother ▸ hne)
    · rename_i hnone
      refine .inr ⟨?_, rfl⟩
      rintro (h | h | h | ⟨other, hother, -⟩)
      · exact hstart h
      · exact hend h
      · exact hlength h
      · rw [hnone] at hother
        cases hother

theorem checkSpan_sound (h : ¬ Faulty source span) : checkSpan source span = .ok () := by
  rcases checkSpan_cases source span with ⟨hfaulty, -⟩ | ⟨-, hok⟩
  · exact absurd hfaulty h
  · exact hok

theorem replaceEach_faulty (h : ∃ span ∈ spans, Faulty source span) :
    ∀ result, (replaceEach source spans result).toOption = none := by
  induction spans with
  | nil =>
    obtain ⟨span, hspan, -⟩ := h
    exact absurd hspan List.not_mem_nil
  | cons first rest ih =>
    intro result
    rw [replaceEach]
    rcases checkSpan_cases source first with ⟨-, error, herror⟩ | ⟨hsound, hok⟩
    · rw [herror]
      rfl
    · rw [hok]
      obtain ⟨span, hspan, hfaulty⟩ := h
      rcases List.mem_cons.mp hspan with rfl | hspan
      · exact absurd hfaulty hsound
      · exact ih ⟨span, hspan, hfaulty⟩ _

theorem replaceEach_sound (h : ∀ span ∈ spans, ¬ Faulty source span) :
    ∀ result, ∃ text, replaceEach source spans result = .ok text := by
  induction spans with
  | nil => exact fun result => ⟨result, rfl⟩
  | cons first rest ih =>
    intro result
    rw [replaceEach, checkSpan_sound (h first List.mem_cons_self)]
    exact ih (fun span hspan => h span (List.mem_cons_of_mem first hspan)) _

/-! ## The check of neighbours -/

def EndsBefore (later earlier : SourceSpanReplacement) : Prop := earlier.end_ ≤ later.start

theorem checkOverlaps_cases : ∀ spans : List SourceSpanReplacement,
    (spans.IsChain EndsBefore ∧ checkOverlaps spans = .ok ()) ∨
    (¬ spans.IsChain EndsBefore ∧ ∃ error, checkOverlaps spans = .error error)
  | [] => .inl ⟨.nil, rfl⟩
  | [_] => .inl ⟨.singleton _, rfl⟩
  | later :: earlier :: rest => by
    rw [checkOverlaps, List.isChain_cons_cons]
    split
    · rename_i hover
      exact .inr ⟨fun h => absurd h.1 (Int.not_le.mpr hover), _, rfl⟩
    · rename_i hbefore
      rcases checkOverlaps_cases (earlier :: rest) with ⟨hchain, hok⟩ | ⟨hbroken, herror⟩
      · exact .inl ⟨⟨Int.not_lt.mp hbefore, hchain⟩, hok⟩
      · exact .inr ⟨fun h => hbroken h.2, herror⟩

theorem pairwise_endsBefore : ∀ {spans : List SourceSpanReplacement}, spans.Pairwise startsBehind →
    spans.IsChain EndsBefore → spans.Pairwise EndsBefore
  | [], _, _ => .nil
  | [_], _, _ => List.pairwise_singleton _ _
  | later :: earlier :: rest, hsorted, hchain => by
    rw [List.pairwise_cons] at hsorted
    rw [List.isChain_cons_cons] at hchain
    have hrest := pairwise_endsBefore hsorted.2 hchain.2
    refine List.pairwise_cons.mpr ⟨fun span hspan => ?_, hrest⟩
    rcases List.mem_cons.mp hspan with rfl | hspan
    · exact hchain.1
    · have hend : span.end_ ≤ earlier.start := (List.pairwise_cons.mp hrest).1 span hspan
      exact Int.le_trans hend (hsorted.1 earlier List.mem_cons_self)

/-! ## Back to front -/

instance : Std.Total startsBehind := ⟨fun a b => Int.le_total b.start a.start⟩

instance : IsTrans SourceSpanReplacement startsBehind := ⟨fun _ _ _ hab hbc => Int.le_trans hbc hab⟩

theorem bounds_of_sound (h : ¬ Faulty source span) :
    0 ≤ span.start ∧ span.start ≤ span.end_ ∧ span.end_ ≤ source.length := by
  refine ⟨?_, ?_, ?_⟩ <;> by_contra hbound
  · exact h (.inl (Int.not_le.mp hbound))
  · exact h (.inr (.inl (Int.not_le.mp hbound)))
  · exact h (.inr (.inr (.inl (Int.not_le.mp hbound))))

theorem sliceOffset_nonneg {length : Nat} {offset : Int} (h : 0 ≤ offset) :
    sliceOffset length offset = min offset.toNat length := if_neg (Int.not_lt.mpr h)

theorem sliced_splice (h : ¬ Faulty source span) (result : Text) :
    stringSlice result 0 span.start ++ span.replacement ++ stringSliceFrom result span.end_ =
      span.edit.splice result := by
  obtain ⟨hstart, hend, -⟩ := bounds_of_sound h
  have htake : stringSlice result 0 span.start = result.take span.start.toNat := by
    rw [stringSlice, sliceOffset_nonneg hstart, sliceOffset_nonneg le_rfl, Int.toNat_zero, Nat.zero_min, List.drop_zero]
    rcases Nat.le_total span.start.toNat result.length with hin | hout
    · rw [Nat.min_eq_left hin]
    · rw [Nat.min_eq_right hout, List.take_length, List.take_of_length_le hout]
  have hdrop : stringSliceFrom result span.end_ = result.drop span.end_.toNat := by
    rw [stringSliceFrom, sliceOffset_nonneg (Int.le_trans hstart hend)]
    rcases Nat.le_total span.end_.toNat result.length with hin | hout
    · rw [Nat.min_eq_left hin]
    · rw [Nat.min_eq_right hout, List.drop_length, List.drop_of_length_le hout]
  rw [htake, hdrop]
  rfl

theorem replaceEach_substitute : ∀ (spans done : List SourceSpanReplacement),
    (∀ span ∈ spans ++ done, ¬ Faulty source span) →
    spans.Pairwise (fun later earlier => EndsBefore later earlier ∧ earlier.start < later.start) →
    (∀ later ∈ done, ∀ earlier ∈ spans, EndsBefore later earlier ∧ earlier.start < later.start) →
    replaceEach source spans (Edit.substitute source (done.map (·.edit))) =
      .ok (Edit.substitute source ((spans.reverse ++ done).map (·.edit)))
  | [], _, _, _, _ => rfl
  | span :: rest, done, hsound, hpairs, hdone => by
    have hspan : ¬ Faulty source span := hsound span (by simp)
    rw [List.pairwise_cons] at hpairs
    obtain ⟨hstart, hend, hlength⟩ := bounds_of_sound hspan
    have hfront : Edit.Front span.edit source (done.map (·.edit)) := by
      refine ⟨Int.toNat_le_toNat hend, Int.toNat_le.mpr hlength, fun e he => ?_, fun e he => ?_⟩ <;>
        obtain ⟨later, hlater, rfl⟩ := List.mem_map.mp he <;>
        obtain ⟨hbefore, hless⟩ := hdone later hlater span List.mem_cons_self
      · exact Int.toNat_le_toNat hbefore
      · show span.start.toNat + 1 ≤ later.start.toNat
        omega
    have hsound' : ∀ other ∈ rest ++ span :: done, ¬ Faulty source other := fun other hother => hsound other (by
      rw [List.mem_append, List.mem_cons] at hother
      rw [List.cons_append, List.mem_cons, List.mem_append]
      exact or_left_comm.mp hother)
    have hdone' : ∀ later ∈ span :: done, ∀ earlier ∈ rest,
        EndsBefore later earlier ∧ earlier.start < later.start := by
      intro later hlater earlier hearlier
      rcases List.mem_cons.mp hlater with rfl | hlater
      · exact hpairs.1 earlier hearlier
      · exact hdone later hlater earlier (List.mem_cons_of_mem span hearlier)
    rw [replaceEach, checkSpan_sound hspan, sliced_splice hspan, hfront.splice, List.reverse_cons, List.append_assoc]
    exact replaceEach_substitute rest (span :: done) hsound' hpairs.2 hdone'

/-! ## Whole lists -/

theorem replaceSourceSpans_faulty (h : ∃ span ∈ spans, Faulty source span) :
    (replaceSourceSpans source spans).toOption = none := by
  have hsorted : ∃ span ∈ spans.insertionSort startsBehind, Faulty source span := by
    obtain ⟨span, hspan, hfaulty⟩ := h
    exact ⟨span, (List.mem_insertionSort _).mpr hspan, hfaulty⟩
  rw [replaceSourceSpans]
  rcases checkOverlaps_cases (spans.insertionSort startsBehind) with ⟨-, hok⟩ | ⟨-, error, herror⟩
  · rw [hok]
    exact replaceEach_faulty hsorted source
  · rw [herror]
    rfl

theorem overlaps_symm {a b : SourceSpanReplacement} (h : ¬ Overlaps a b) : ¬ Overlaps b a :=
  fun hba => h ⟨hba.2, hba.1⟩

theorem replaceSourceSpans_overlapping (h : ¬ spans.Pairwise fun a b => ¬ Overlaps a b) :
    (replaceSourceSpans source spans).toOption = none := by
  rw [replaceSourceSpans]
  rcases checkOverlaps_cases (spans.insertionSort startsBehind) with ⟨hchain, -⟩ | ⟨-, error, herror⟩
  · refine absurd ?_ h
    have hpairs := pairwise_endsBefore (List.pairwise_insertionSort _ spans) hchain
    refine ((List.perm_insertionSort startsBehind spans).pairwise_iff overlaps_symm).mp (hpairs.imp fun hbefore hover => ?_)
    exact absurd hover.1 (Int.not_lt.mpr hbefore)
  · rw [herror]
    rfl

theorem endsBefore_of_apart {a b : SourceSpanReplacement} (hsound : ¬ Faulty source a) (hless : b.start < a.start)
    (hapart : ¬ Overlaps a b) : EndsBefore a b := by
  obtain ⟨-, hend, -⟩ := bounds_of_sound hsound
  exact Int.not_lt.mp fun hover => hapart ⟨hover, Int.lt_of_lt_of_le hless hend⟩

theorem editStarts_nodup (hsound : ∀ span ∈ spans, ¬ Faulty source span) (hstarts : (spans.map (·.start)).Nodup) :
    ((spans.map (·.edit)).map (·.start)).Nodup := by
  rw [List.map_map]
  refine List.pairwise_map.mpr ((List.pairwise_map.mp hstarts).imp_of_mem fun {a b} ha hb hne => ?_)
  have hpos_a := (bounds_of_sound (hsound a ha)).1
  have hpos_b := (bounds_of_sound (hsound b hb)).1
  show a.start.toNat ≠ b.start.toNat
  omega

theorem replaceSourceSpans_distinct (hsound : ∀ span ∈ spans, ¬ Faulty source span)
    (hapart : spans.Pairwise fun a b => ¬ Overlaps a b) (hstarts : (spans.map (·.start)).Nodup) :
    replaceSourceSpans source spans = .ok (Edit.substitute source (spans.map (·.edit))) := by
  have hperm := List.perm_insertionSort startsBehind spans
  have hsorted := List.pairwise_insertionSort startsBehind spans
  have hsound' : ∀ span ∈ spans.insertionSort startsBehind, ¬ Faulty source span := fun span hspan =>
    hsound span (hperm.mem_iff.mp hspan)
  have hdistinct : (spans.insertionSort startsBehind).Pairwise fun a b => a.start ≠ b.start :=
    List.pairwise_map.mp ((hperm.map SourceSpanReplacement.start).nodup_iff.mpr hstarts)
  have happart' := (hperm.pairwise_iff overlaps_symm).mpr hapart
  have hpairs : (spans.insertionSort startsBehind).Pairwise fun later earlier =>
      EndsBefore later earlier ∧ earlier.start < later.start := by
    refine (hsorted.and (hdistinct.and happart')).imp_of_mem fun {later earlier} hlater _ h => ?_
    obtain ⟨hle, hne, hover⟩ := h
    have hless : earlier.start < later.start := by
      have : earlier.start ≤ later.start := hle
      omega
    exact ⟨endsBefore_of_apart (hsound' later hlater) hless hover, hless⟩
  have heach := replaceEach_substitute (spans.insertionSort startsBehind) [] (by simpa using hsound') hpairs nofun
  rw [List.append_nil, List.map_nil, Edit.substitute_nil] at heach
  rw [replaceSourceSpans]
  rcases checkOverlaps_cases (spans.insertionSort startsBehind) with ⟨-, hok⟩ | ⟨hbroken, -⟩
  · rw [hok]
    have hback : ((spans.map (·.edit))).Perm ((spans.insertionSort startsBehind).reverse.map (·.edit)) :=
      ((List.reverse_perm _).trans hperm).symm.map _
    exact heach.trans (congrArg Except.ok (Edit.substitute_perm hback (editStarts_nodup hsound hstarts)).symm)
  · exact absurd (hpairs.imp And.left).isChain hbroken

/-! ## Every order of the list -/

def longerFirst (left right : SourceSpanReplacement) : Prop :=
  right.start < left.start ∨ (right.start = left.start ∧ right.end_ ≤ left.end_)

instance : DecidableRel longerFirst := fun left right =>
  inferInstanceAs (Decidable (right.start < left.start ∨ (right.start = left.start ∧ right.end_ ≤ left.end_)))

instance : Std.Total longerFirst := ⟨fun a b => by unfold longerFirst; omega⟩

instance : IsTrans SourceSpanReplacement longerFirst := ⟨fun a b c => by unfold longerFirst; omega⟩

theorem replaceSourceSpans_accepts (hsound : ∀ span ∈ spans, ¬ Faulty source span)
    (hapart : spans.Pairwise fun a b => ¬ Overlaps a b) :
    ∃ text, replaceSourceSpans source (spans.insertionSort longerFirst) = .ok text := by
  have hperm := List.perm_insertionSort longerFirst spans
  have hsorted := List.pairwise_insertionSort longerFirst spans
  have hsound' : ∀ span ∈ spans.insertionSort longerFirst, ¬ Faulty source span := fun span hspan =>
    hsound span (hperm.mem_iff.mp hspan)
  have hstable : (spans.insertionSort longerFirst).insertionSort startsBehind = spans.insertionSort longerFirst := by
    refine List.Pairwise.insertionSort_eq (hsorted.imp fun {a b} h => ?_)
    show b.start ≤ a.start
    unfold longerFirst at h
    omega
  have hbefore : (spans.insertionSort longerFirst).Pairwise EndsBefore := by
    have hpairs := hsorted.and ((hperm.pairwise_iff overlaps_symm).mpr hapart)
    refine hpairs.imp_of_mem fun {later earlier} hlater hearlier h => ?_
    obtain ⟨horder, hover⟩ := h
    rcases horder with hless | ⟨hstart, hend⟩
    · exact endsBefore_of_apart (hsound' later hlater) hless hover
    · -- one of the two is empty
      have hlater := bounds_of_sound (hsound' later hlater)
      have hearlier := bounds_of_sound (hsound' earlier hearlier)
      unfold Overlaps at hover
      show earlier.end_ ≤ later.start
      omega
  rw [replaceSourceSpans, hstable]
  rcases checkOverlaps_cases (spans.insertionSort longerFirst) with ⟨-, hok⟩ | ⟨hbroken, -⟩
  · rw [hok]
    exact replaceEach_sound hsound' source
  · exact absurd hbefore.isChain hbroken

theorem simultaneous_of_distinct {replacements : List SourceSpanReplacement}
    (hsound : ∀ span ∈ replacements, ¬ Faulty source span) (hapart : replacements.Pairwise fun a b => ¬ Overlaps a b)
    (hstarts : (replacements.map (·.start)).Nodup) : Simultaneous source replacements := by
  have hself := replaceSourceSpans_distinct hsound hapart hstarts
  refine ⟨fun others hothers => ?_, fun hshared => absurd ?_ hshared, fun text htext => ?_⟩
  · have hother := replaceSourceSpans_distinct
      (fun span hspan => hsound span (hothers.mem_iff.mpr hspan)) ((hothers.pairwise_iff overlaps_symm).mp hapart)
      ((hothers.map SourceSpanReplacement.start).nodup_iff.mp hstarts)
    rw [hself, hother, Edit.substitute_perm (hothers.map (·.edit)) (editStarts_nodup hsound hstarts)]
  · exact (List.pairwise_map.mp hstarts).and hapart
  · rw [hself] at htext
    exact (Except.ok.inj htext).symm

theorem replaceSourceSpans_simultaneous (source : Text) (replacements : List SourceSpanReplacement) :
    Simultaneous source replacements ↔ (∃ span ∈ replacements, Faulty source span) ∨
      (¬ replacements.Pairwise fun a b => ¬ Overlaps a b) ∨ (replacements.map (·.start)).Nodup := by
  have hthrows (hnone : ∀ others, replacements.Perm others → (replaceSourceSpans source others).toOption = none) :
      Simultaneous source replacements := by
    refine ⟨fun others hothers => ?_, fun _ => hnone _ (.refl _), fun text htext => ?_⟩
    · rw [hnone others hothers, hnone _ (.refl _)]
    · have := hnone _ (.refl _)
      rw [htext] at this
      cases this
  have hfaulty (h : ∃ span ∈ replacements, Faulty source span) : Simultaneous source replacements := by
    obtain ⟨span, hspan, hfaulty⟩ := h
    exact hthrows fun others hothers => replaceSourceSpans_faulty ⟨span, hothers.mem_iff.mp hspan, hfaulty⟩
  have hover (h : ¬ replacements.Pairwise fun a b => ¬ Overlaps a b) : Simultaneous source replacements :=
    hthrows fun others hothers =>
      replaceSourceSpans_overlapping fun hapart => h ((hothers.pairwise_iff overlaps_symm).mpr hapart)
  constructor
  · intro h
    by_contra hnot
    rw [not_or, not_or, not_not] at hnot
    obtain ⟨hclean, hapart, hshared⟩ := hnot
    have hsound : ∀ span ∈ replacements, ¬ Faulty source span := fun span hspan hbad => hclean ⟨span, hspan, hbad⟩
    obtain ⟨text, htext⟩ := replaceSourceSpans_accepts hsound hapart
    have hsame := h.order _ (List.perm_insertionSort longerFirst replacements).symm
    have hnone := h.rejects fun hpairs => hshared (List.pairwise_map.mpr (hpairs.imp And.left))
    rw [htext, hnone] at hsame
    cases hsame
  · rintro (hbad | hbad | hstarts)
    · exact hfaulty hbad
    · exact hover hbad
    · by_cases hbad : ∃ span ∈ replacements, Faulty source span
      · exact hfaulty hbad
      by_cases hapart : replacements.Pairwise fun a b => ¬ Overlaps a b
      · have hsound : ∀ span ∈ replacements, ¬ Faulty source span := fun span hspan h => hbad ⟨span, hspan, h⟩
        exact simultaneous_of_distinct hsound hapart hstarts
      · exact hover hapart

/-- The empty span passes behind the other one in the list, and not in front of it. -/
theorem replaceSourceSpans_empty_span :
    ¬ Simultaneous (Text.of "ab") [⟨0, 1, Text.of "X", none⟩, ⟨0, 0, Text.of "Y", none⟩] := by
  intro h
  have hsame := h.order _ (List.reverse_perm _).symm
  revert hsame
  decide

end Veryfront.Transforms
