import Veryfront.Routing.SegmentMatchers
import Veryfront.Routing.StandardPatterns

/-!
# The walks over a standard pattern

What a standard pattern binds on a path, and that both walkers bind it.
-/

namespace Veryfront.Routing

open Lib StandardSegment

/-! ## Patterns and paths -/

structure SegmentPattern where
  segments : List StandardSegment
  catchAllLast : CatchAllLast segments
  names_nodup : ((segments.filterMap parameter?).map Parameter.name).Nodup

structure PathPart where
  text : Text
  nonempty : text ≠ []
  noSlash : slash ∉ text
  noPercent : percent ∉ text

def join (parts : List Text) : Text := [slash].intercalate parts

def pathTail (parts : List Text) : Text := parts.flatMap (slash :: ·)

/-- With a slash in front, or without. -/
def rootedText (rooted : Bool) (t : Text) : Text := if rooted then slash :: t else t

def SegmentPattern.text (pattern : SegmentPattern) (rooted : Bool) : Text :=
  rootedText rooted (join (pattern.segments.map spell))

def pathText (path : List PathPart) (rooted : Bool) : Text := rootedText rooted (join (path.map PathPart.text))

def bindParams : List StandardSegment → List Text → Option (List (Text × ParamValue))
  | [], [] => some []
  | [], _ :: _ => none
  | .plain .. :: _, [] => none
  | .plain text .. :: ss, part :: parts => if part = text then bindParams ss parts else none
  | .parameter (.single _) .. :: _, [] => none
  | .parameter (.single name) .. :: ss, part :: parts => (bindParams ss parts).map ((name, .one part) :: ·)
  | .parameter (.catchAll name) .. :: _, parts => some [(name, .many parts)]
  | .parameter (.optionalCatchAll name) .. :: _, parts => some [(name, .many parts)]

def objectOf (set : OrdMap Text ParamValue → Text → ParamValue → OrdMap Text ParamValue)
    (params : List (Text × ParamValue)) : OrdMap Text ParamValue :=
  params.foldl (fun object param => set object param.1 param.2) .empty

/-! ## The walkers -/

theorem join_cons (part : Text) (parts : List Text) : join (part :: parts) = part ++ pathTail parts := by
  induction parts generalizing part with
  | nil => simp [join, pathTail]
  | cons part' parts ih =>
    have hcons : join (part :: part' :: parts) = part ++ slash :: join (part' :: parts) := rfl
    rw [hcons, ih]
    rfl

theorem segments_rootedText {parts : List Text} (rooted : Bool) (hne : ∀ part ∈ parts, part ≠ [])
    (hslash : ∀ part ∈ parts, slash ∉ part) : segments (rootedText rooted (join parts)) = parts := by
  have hfront : segments (rootedText rooted (join parts)) = segments (join parts) := by
    cases rooted with
    | false => rfl
    | true =>
      have hsplit := List.splitOn_append_cons_self (a := slash) [] (join parts)
      rw [List.nil_append] at hsplit
      rw [rootedText, if_pos rfl, segments, hsplit]
      rfl
  rw [hfront]
  cases parts with
  | nil => rfl
  | cons part parts =>
    rw [segments, join, List.splitOn_intercalate slash hslash (List.cons_ne_nil _ _), List.filter_eq_self]
    exact fun p hp => decide_eq_true (hne p hp)

structure Walker.Reads (walker : Walker) : Prop where
  isCatchAll : ∀ s : StandardSegment, walker.isCatchAll s.spell = s.isCatchAll
  isDynamic : ∀ s : StandardSegment, s.isCatchAll = false → walker.isDynamic s.spell = s.parameter?.isSome
  catchAllName : ∀ p hne hword, p.isCatchAll = true → walker.catchAllName (parameter p hne hword).spell = p.name
  dynamicName : ∀ p hne hword, p.isCatchAll = false → walker.dynamicName (parameter p hne hword).spell = p.name

namespace Walker

variable {walker : Walker}

theorem walk_eq (h : walker.Reads) (ss : List StandardSegment) (parts : List Text) (params : OrdMap Text ParamValue) :
    walker.walk (ss.map spell) parts params =
      (bindParams ss parts).map fun bound => bound.foldl (fun object param => walker.set object param.1 param.2) params := by
  induction ss generalizing parts params with
  | nil => cases parts <;> rfl
  | cons s ss ih =>
    have hcatch := h.isCatchAll s
    have hdynamic := h.isDynamic s
    rw [List.map_cons]
    unfold walk
    cases s with
    | plain text hne hslash hbracket =>
      rw [if_neg (by rw [hcatch]; exact Bool.false_ne_true), if_neg (by rw [hdynamic rfl]; exact Bool.false_ne_true)]
      cases parts with
      | nil => rfl
      | cons part parts =>
        rw [bindParams]
        by_cases heq : part = text
        · rw [if_pos heq, ← ih]
          simp [spell, heq]
        · simp [spell, heq]
    | parameter p hne hword =>
      cases p with
      | single name =>
        rw [if_neg (by rw [hcatch]; exact Bool.false_ne_true), if_pos (by rw [hdynamic rfl]; rfl)]
        cases parts with
        | nil => rfl
        | cons part parts =>
          dsimp only
          rw [ih, bindParams, Option.map_map, h.dynamicName _ hne hword rfl]
          rfl
      | catchAll name =>
        rw [if_pos (by rw [hcatch]; rfl), h.catchAllName _ hne hword rfl]
        rfl
      | optionalCatchAll name =>
        rw [if_pos (by rw [hcatch]; rfl), h.catchAllName _ hne hword rfl]
        rfl

theorem bindParams_eq_none {ss : List StandardSegment} {parts : List Text} (hcatch : ∀ s ∈ ss, s.isCatchAll = false)
    (hlen : ss.length ≠ parts.length) : bindParams ss parts = none := by
  induction ss generalizing parts with
  | nil =>
    cases parts with
    | nil => exact absurd rfl hlen
    | cons part parts => rfl
  | cons s ss ih =>
    have hs := hcatch s List.mem_cons_self
    have hrest : ∀ part parts', parts = part :: parts' → bindParams ss parts' = none := by
      rintro part parts' rfl
      exact ih (fun s hs => hcatch s (List.mem_cons_of_mem _ hs)) (fun heq => hlen (congrArg (· + 1) heq))
    cases s with
    | plain text hne hslash hbracket =>
      cases parts with
      | nil => rfl
      | cons part parts =>
        rw [bindParams, hrest part parts rfl]
        exact ite_self none
    | parameter p hne hword =>
      cases p with
      | single name =>
        cases parts with
        | nil => rfl
        | cons part parts =>
          rw [bindParams, hrest part parts rfl]
          rfl
      | catchAll name => cases hs
      | optionalCatchAll name => cases hs

theorem extract_eq (h : walker.Reads) (pattern : SegmentPattern) (path : List PathPart) (rooted : Bool) :
    walker.extract (pattern.text rooted) (pathText path rooted) =
      (bindParams pattern.segments (path.map PathPart.text)).map (objectOf walker.set) := by
  have hpattern : segments (pattern.text rooted) = pattern.segments.map spell :=
    segments_rootedText rooted (by simp [spell_ne_nil]) (by simp [slash_notMem_spell])
  have hpath : segments (pathText path rooted) = path.map PathPart.text :=
    segments_rootedText rooted (by simp [PathPart.nonempty]) (by simp [PathPart.noSlash])
  rw [extract, hpattern, hpath, walk_eq h]
  split
  · rename_i hlen
    rw [bindParams_eq_none _ (by simpa using hlen.2)]
    · rfl
    · intro s hs
      have hnone := hlen.1
      simp only [List.any_map, List.any_eq_true, not_exists, not_and, Function.comp_apply, h.isCatchAll] at hnone
      exact Bool.eq_false_of_not_eq_true (hnone s hs)
  · rfl

end Walker

/-! ## What the walkers see -/

theorem startsWith_plain {text : Text} (h : bracket ∉ text) {opening : String} (hopening : bracket ∈ Text.of opening) :
    text.startsWith opening = false := by
  rw [Text.startsWith, Bool.eq_false_iff]
  exact fun hpre => h ((List.isPrefixOf_iff_prefix.mp hpre).subset hopening)

theorem startsWith_name (name : Text) (hne : name ≠ []) (hword : ∀ c ∈ name, isWord c = true) :
    (Parameter.single name).matchedText.startsWith "[[..." = false ∧
      (Parameter.single name).matchedText.startsWith "[..." = false := by
  obtain ⟨c, name, rfl⟩ := List.exists_cons_of_ne_nil hne
  have hc := isWord_range (hword c List.mem_cons_self)
  have hdot : 46 ≠ c := by omega
  have hbracket : 91 ≠ c := by omega
  simp [Parameter.matchedText, openings, Text.startsWith, List.isPrefixOf, hdot, hbracket]

theorem slugWalker_reads : slugWalker.Reads where
  isCatchAll s := by
    cases s with
    | plain text hne hslash hbracket =>
      have hno := @startsWith_plain text hbracket
      simp [slugWalker, isSpreadParam, isOptionalSpreadParam, spell, StandardSegment.isCatchAll, parameter?,
        hno (by decide : bracket ∈ Text.of "[[..."), hno (by decide : bracket ∈ Text.of "[...")]
    | parameter p hne hword =>
      cases p with
      | single name =>
        have hno := startsWith_name name hne hword
        simp [slugWalker, isSpreadParam, isOptionalSpreadParam, spell, StandardSegment.isCatchAll, parameter?, hno,
          Parameter.isCatchAll]
      | catchAll name =>
        simp [slugWalker, isSpreadParam, isOptionalSpreadParam, spell, StandardSegment.isCatchAll, parameter?,
          Parameter.isCatchAll, Parameter.matchedText, openings, closings, Text.startsWith, Text.endsWith, List.isSuffixOf]
      | optionalCatchAll name =>
        simp [slugWalker, isSpreadParam, isOptionalSpreadParam, spell, StandardSegment.isCatchAll, parameter?,
          Parameter.isCatchAll, Parameter.matchedText, openings, closings, Text.startsWith, Text.endsWith, List.isSuffixOf]
  isDynamic s hs := by
    cases s with
    | plain text hne hslash hbracket =>
      simp [slugWalker, isDynamicParam, spell, parameter?, startsWith_plain hbracket (by decide : bracket ∈ Text.of "[")]
    | parameter p hne hword =>
      cases p with
      | single name =>
        simp [slugWalker, isDynamicParam, spell, parameter?, Parameter.matchedText, openings, closings, Text.startsWith,
          Text.endsWith, List.isSuffixOf]
      | catchAll name => cases hs
      | optionalCatchAll name => cases hs
  catchAllName p hne hword hp := by
    cases p with
    | single name => cases hp
    | catchAll name =>
      simp [slugWalker, spreadParamName, isOptionalSpreadParam, spell, Parameter.matchedText, Parameter.name, openings,
        closings, Text.startsWith]
    | optionalCatchAll name =>
      simp [slugWalker, spreadParamName, isOptionalSpreadParam, spell, Parameter.matchedText, Parameter.name, openings,
        closings, Text.startsWith, Text.endsWith, List.isSuffixOf]
  dynamicName p hne hword hp := by
    cases p with
    | single name => simp [slugWalker, spell, Parameter.matchedText, Parameter.name, openings, closings]
    | catchAll name => cases hp
    | optionalCatchAll name => cases hp

/-! The grammar reads every standard parameter. -/

def Parameter.parameterKind : Parameter → RouteParameterKind
  | .optionalCatchAll _ => .optionalCatchAll
  | .catchAll _ => .catchAll
  | .single _ => .dynamic

theorem splitAtFirst_closing {name : Text} (hname : 93 ∉ name) (rest : Text) :
    splitAtFirst (93 :: rest) (name ++ 93 :: rest) = some (name, []) := by
  induction name with
  | nil => simp [splitAtFirst]
  | cons c name ih =>
    have hc : 93 ≠ c := fun heq => hname (heq ▸ List.mem_cons_self)
    rw [List.cons_append, splitAtFirst, ih fun hmem => hname (List.mem_cons_of_mem _ hmem)]
    simp [hc]

theorem isValidParameterName_word {name : Text} (hne : name ≠ []) (hword : ∀ c ∈ name, isWord c = true) :
    isValidParameterName name = true := by
  have hdot : 46 ∉ name := fun hmem => absurd (hword 46 hmem) (by decide)
  rw [isValidParameterName, List.splitOn_eq_singleton hdot]
  simp only [List.all_cons, List.all_nil, Bool.and_true, Bool.and_eq_true, decide_eq_true_eq, List.all_eq_true,
    Bool.or_eq_true]
  exact ⟨hne, fun c hc => .inl (hword c hc)⟩

theorem containsPathControlCharacters_matchedText {p : Parameter} (hword : ∀ c ∈ p.name, isWord c = true) :
    containsPathControlCharacters p.matchedText = false := by
  have hname : ∀ c ∈ p.name, ¬ (c ≤ 0x1f ∨ (0x7f ≤ c ∧ c ≤ 0x9f)) := by
    intro c hc
    have := isWord_range (hword c hc)
    omega
  have hmarks : ∀ c ∈ [91, 46, 93], ¬ (c ≤ 0x1f ∨ (0x7f ≤ c ∧ c ≤ 0x9f)) := by decide
  rw [containsPathControlCharacters, List.any_eq_false]
  intro c hc
  have hcases : c ∈ p.name ∨ c ∈ [91, 46, 93] := by
    cases p <;> simp [Parameter.matchedText, Parameter.name, openings, closings] at hc ⊢ <;> tauto
  simpa using hcases.elim (hname c) (hmarks c)

theorem parseRouteParameterSegment_matchedText {p : Parameter} (hne : p.name ≠ [])
    (hword : ∀ c ∈ p.name, isWord c = true) :
    parseRouteParameterSegment p.matchedText = some ⟨p.name, p.parameterKind, []⟩ := by
  have hcontrol := containsPathControlCharacters_matchedText hword
  have hvalid := isValidParameterName_word hne hword
  have hclosing : 93 ∉ p.name := fun hmem => absurd (hword 93 hmem) (by decide)
  have hsplit := splitAtFirst_closing hclosing
  unfold parseRouteParameterSegment
  rw [hcontrol, if_neg (by cases p <;> simp [Parameter.matchedText, openings, Text.startsWith])]
  cases p with
  | single name =>
    have hno := startsWith_name name hne hword
    simp only [Parameter.name] at hvalid hsplit
    rw [if_neg (by rw [hno.1]; exact Bool.false_ne_true), if_neg (by rw [hno.2]; exact Bool.false_ne_true)]
    simp [Parameter.matchedText, openings, closings, hsplit, hvalid, Parameter.parameterKind, Parameter.name]
  | catchAll name =>
    simp only [Parameter.name] at hvalid hsplit
    simp [Parameter.matchedText, openings, closings, Text.startsWith, hsplit, hvalid, Parameter.parameterKind,
      Parameter.name]
  | optionalCatchAll name =>
    simp only [Parameter.name] at hvalid hsplit
    simp [Parameter.matchedText, openings, closings, Text.startsWith, hsplit, hvalid, Parameter.parameterKind,
      Parameter.name]

theorem parseRouteParameterSegment_spell (s : StandardSegment) :
    parseRouteParameterSegment s.spell = s.parameter?.map fun p => ⟨p.name, p.parameterKind, []⟩ := by
  cases s with
  | plain text hne hslash hbracket =>
    have hplain := startsWith_plain hbracket (by decide : bracket ∈ Text.of "[")
    rw [parseRouteParameterSegment, if_pos (.inl (by simp [spell, hplain]))]
    rfl
  | parameter p hne hword => exact parseRouteParameterSegment_matchedText hne hword

theorem patternWalker_reads : patternWalker.Reads where
  isCatchAll s := by
    change isCatchAllParameter s.spell = _
    rw [isCatchAllParameter, parseRouteParameterSegment_spell]
    cases s with
    | plain text hne hslash hbracket => rfl
    | parameter p hne hword => cases p <;> rfl
  isDynamic s _ := by
    change isDynamicSegment s.spell = _
    rw [isDynamicSegment, parseRouteParameterSegment_spell, Option.isSome_map]
  catchAllName p hne hword _ := by
    change extractParamName _ = _
    rw [extractParamName, parseRouteParameterSegment_spell]
    rfl
  dynamicName p hne hword _ := by
    change extractParamName _ = _
    rw [extractParamName, parseRouteParameterSegment_spell]
    rfl

end Veryfront.Routing
