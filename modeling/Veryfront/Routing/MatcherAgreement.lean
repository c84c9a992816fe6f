import Veryfront.Routing.SegmentWalks

/-!
# The matchers agree

On a standard pattern the expression and both walkers bind the same parameters, up to what each of them does with a
required catch-all that has nothing left, with a line end in what a catch-all gets, and with the prototype's name.
-/

namespace Veryfront.Routing

open Lib StandardSegment

/-! ## The expression of a standard pattern -/

/-- The expression for a pattern from here on, when some literal text has been read. -/
def compiled (literal rest : Text) : List RegexPart :=
  regexParts (scanParameters 0 literal.reverse rest).1 (scanParameters 0 literal.reverse rest).2

/-- A capture that took no part counts as the empty text. -/
def captured (groups : Option (List (Option Text))) : Option (List Text) := groups.map (List.map (Option.getD · []))

def lineFree (parts : List Text) : Bool := parts.all (List.all · dot)

def captures : List StandardSegment → List Text → Option (List Text)
  | [], [] => some []
  | [], _ :: _ => none
  | .plain .. :: _, [] => none
  | .plain text .. :: ss, part :: parts => if part = text then captures ss parts else none
  | .parameter (.single _) .. :: _, [] => none
  | .parameter (.single _) .. :: ss, part :: parts => (captures ss parts).map (part :: ·)
  | .parameter (.catchAll _) .. :: _, parts => if parts ≠ [] ∧ lineFree parts then some [join parts] else none
  | .parameter (.optionalCatchAll _) .. :: _, parts => if lineFree parts then some [join parts] else none

theorem compiled_plain {text : Text} (h : bracket ∉ text) (literal rest : Text) :
    compiled literal (text ++ rest) = compiled (literal ++ text) rest := by
  rw [compiled, scanParameters_plain h, ← List.reverse_append]
  rfl

theorem isLast_spellAll (ss : List StandardSegment) :
    ((scanParameters 0 [] (spellAll ss)).1.isEmpty && (scanParameters 0 [] (spellAll ss)).2.isEmpty) = ss.isEmpty := by
  cases ss with
  | nil => rfl
  | cons s ss =>
    have hcount := (scanParameters_spellAll (s :: ss) []).2
    by_contra hempty
    simp only [List.isEmpty_cons, Bool.not_eq_false, Bool.and_eq_true, List.isEmpty_iff] at hempty
    rw [slashCount, hempty.1, hempty.2] at hcount
    cases hcount

theorem compiled_parameter {p : Parameter} (hne : p.name ≠ []) (hword : ∀ c ∈ p.name, isWord c = true) (literal : Text)
    (ss : List StandardSegment) :
    compiled literal (p.matchedText ++ spellAll ss) = parameterParts literal p ss.isEmpty ++ compiled [] (spellAll ss) := by
  rw [compiled, scanParameters_parameter hne hword, List.reverse_reverse, regexParts, isLast_spellAll]
  rfl

theorem exec_literal_append (text text' : Text) (parts : List RegexPart) (t : Text) :
    exec (.literal (text ++ text') :: parts) t =
      if text.isPrefixOf t then exec (.literal text' :: parts) (t.drop text.length) else none := by
  by_cases hpre : text <+: t
  · obtain ⟨rest, rfl⟩ := hpre
    simp [exec, List.isPrefixOf_iff_prefix, List.drop_length_add_append]
  · have hlong : ¬ (text ++ text') <+: t := fun h => hpre ((List.prefix_append text text').trans h)
    rw [exec, if_neg (by rwa [List.isPrefixOf_iff_prefix]), if_neg (by rwa [List.isPrefixOf_iff_prefix])]

theorem exec_literal_nil (parts : List RegexPart) (t : Text) : exec (.literal [] :: parts) t = exec parts t := by
  simp [exec]

theorem exec_compiled (ss : List StandardSegment) (literal t : Text) :
    exec (compiled literal (spellAll ss)) t =
      if literal.isPrefixOf t then exec (compiled [] (spellAll ss)) (t.drop literal.length) else none := by
  induction ss generalizing literal t with
  | nil =>
    have hend : ∀ text, compiled text (spellAll []) = [.literal text] := by
      simp [compiled, spellAll, scanParameters, regexParts]
    rw [hend, hend, ← exec_literal_append, List.append_nil]
  | cons s ss ih =>
    have hspell : spellAll (s :: ss) = [slash] ++ (s.spell ++ spellAll ss) := rfl
    rw [hspell, compiled_plain (by decide), compiled_plain (by decide) []]
    cases s with
    | plain text hne hslash hbracket =>
      rw [spell, compiled_plain hbracket, compiled_plain hbracket, ih, ih ([] ++ [slash] ++ text)]
      by_cases hpre : literal <+: t
      · obtain ⟨rest, rfl⟩ := hpre
        simp [List.isPrefixOf_iff_prefix, List.drop_length_add_append]
      · have hlong : ¬ (literal ++ [slash] ++ text) <+: t := by
          rw [List.append_assoc]
          exact fun h => hpre ((List.prefix_append _ _).trans h)
        rw [if_neg (by rwa [List.isPrefixOf_iff_prefix]), if_neg (by rwa [List.isPrefixOf_iff_prefix])]
    | parameter p hne hword =>
      rw [spell, compiled_parameter hne hword, compiled_parameter hne hword, List.nil_append]
      cases p with
      | single name => exact exec_literal_append literal [slash] _ t
      | catchAll name => exact exec_literal_append literal [slash] _ t
      | optionalCatchAll name =>
        have hend : Text.endsWith (literal ++ [slash]) "/" = true ∧ Text.endsWith [slash] "/" = true := by
          simp [Text.endsWith, List.isSuffixOf, show Text.of "/" = [slash] from rfl]
        cases ss with
        | nil =>
          simp only [parameterParts, List.isEmpty_nil, hend, Bool.and_true, if_true, List.dropLast_concat]
          have hliteral := exec_literal_append literal [] (.optionalTail :: compiled [] (spellAll [])) t
          rwa [List.append_nil] at hliteral
        | cons s' ss => exact exec_literal_append literal [slash] _ t

theorem exec_compiled_eq_none (ss : List StandardSegment) {c : Nat} (hc : c ≠ slash) (t : Text) :
    exec (compiled [] (spellAll ss)) (c :: t) = none := by
  cases ss with
  | nil => simp [compiled, spellAll, scanParameters, regexParts, exec]
  | cons s ss =>
    have hspell : spellAll (s :: ss) = [slash] ++ (s.spell ++ spellAll ss) := rfl
    rw [hspell, compiled_plain (by decide), List.nil_append]
    cases s with
    | plain text hne hslash hbracket =>
      rw [spell, compiled_plain hbracket, exec_compiled]
      simp [Ne.symm hc]
    | parameter p hne hword =>
      rw [spell, compiled_parameter hne hword]
      have hend : Text.endsWith [slash] "/" = true := by decide
      cases p with
      | single name => simp [parameterParts, exec, Ne.symm hc]
      | catchAll name => simp [parameterParts, exec, Ne.symm hc]
      | optionalCatchAll name =>
        cases ss with
        | nil => simp [parameterParts, hend, exec, hc, compiled, spellAll, scanParameters, regexParts]
        | cons s' ss => simp [parameterParts, exec, Ne.symm hc]

/-! ## What its groups capture -/

section Runs

variable {β : Type} {ok : Nat → Bool} {next : Text → Option β}

theorem longestRun_append {run rest : Text} (hrun : ∀ c ∈ run, ok c = true) (hrest : ∀ c ∈ rest.head?, ok c = false)
    (hnext : ∀ c t, ok c = true → next (c :: t) = none) :
    longestRun ok next (run ++ rest) = (next rest).map (run, ·) := by
  induction run with
  | nil =>
    cases rest with
    | nil => rfl
    | cons c rest => simp [longestRun, hrest c rfl]
  | cons c run ih =>
    have hc := hrun c List.mem_cons_self
    rw [List.cons_append, longestRun, if_pos hc, ih fun c hc => hrun c (List.mem_cons_of_mem _ hc), hnext c _ hc,
      Option.map_none, Option.or_none, Option.map_map]
    rfl

theorem nonemptyRun_append {run rest : Text} (hne : run ≠ []) (hrun : ∀ c ∈ run, ok c = true)
    (hrest : ∀ c ∈ rest.head?, ok c = false) (hnext : ∀ c t, ok c = true → next (c :: t) = none) :
    nonemptyRun ok next (run ++ rest) = (next rest).map (run, ·) := by
  obtain ⟨c, run, rfl⟩ := List.exists_cons_of_ne_nil hne
  have hrun' := fun c hc => hrun c (List.mem_cons_of_mem _ hc)
  rw [List.cons_append, nonemptyRun, if_pos (hrun c List.mem_cons_self), longestRun_append hrun' hrest hnext, Option.map_map]
  rfl

theorem longestRun_all {b : β} (hnil : next [] = some b) (hnext : ∀ c t, next (c :: t) = none) (t : Text) :
    longestRun ok next t = if t.all ok then some (t, b) else none := by
  induction t with
  | nil => simp [longestRun, hnil]
  | cons c t ih =>
    rw [longestRun, ih, hnext, Option.map_none, Option.or_none, List.all_cons]
    cases ok c <;> cases t.all ok <;> rfl

theorem nonemptyRun_all {b : β} (hnil : next [] = some b) (hnext : ∀ c t, next (c :: t) = none) (t : Text) :
    nonemptyRun ok next t = if t ≠ [] ∧ t.all ok then some (t, b) else none := by
  cases t with
  | nil => rfl
  | cons c t =>
    rw [nonemptyRun, longestRun_all hnil hnext, List.all_cons]
    cases ok c <;> cases t.all ok <;> simp

end Runs

theorem lineFree_iff (parts : List Text) : (join parts).all dot = lineFree parts := by
  have hslash : dot slash = true := by decide
  cases parts with
  | nil => rfl
  | cons part parts => simp [join_cons, pathTail, lineFree, List.all_flatMap, hslash]

theorem join_eq_nil_iff {parts : List Text} (hne : ∀ part ∈ parts, part ≠ []) : join parts = [] ↔ parts = [] := by
  cases parts with
  | nil => simp [join]
  | cons part parts => simp [join_cons, hne part List.mem_cons_self]

theorem exec_end (t : Text) : exec (compiled [] (spellAll [])) t = if t = [] then some [] else none := by
  simp [compiled, spellAll, scanParameters, regexParts, exec]

theorem head?_pathTail {parts : List Text} {c : Nat} (h : c ∈ (pathTail parts).head?) : c = slash := by
  cases parts with
  | nil => cases h
  | cons part parts => exact (Option.some.inj h).symm

section Segments

variable {ss : List StandardSegment} {parts : List Text} {literal : Text}

theorem exec_literal (parts : List RegexPart) (literal t : Text) :
    exec (.literal literal :: parts) (literal ++ t) = exec parts t := by
  rw [← List.append_nil literal, exec_literal_append, List.append_nil, if_pos (by simp), List.drop_left, exec_literal_nil]

theorem captured_plain {text : Text} (hne : text ≠ []) (htext : slash ∉ text) (hbracket : bracket ∉ text)
    (hslash : ∀ part ∈ parts, slash ∉ part)
    (ih : ∀ part parts', parts = part :: parts' → captured (exec (compiled [] (spellAll ss)) (pathTail parts')) = captures ss parts') :
    captured (exec (compiled literal (text ++ spellAll ss)) (literal ++ join parts)) =
      captures (.plain text hne htext hbracket :: ss) parts := by
  have hstart : ∀ t, (literal ++ text).isPrefixOf (literal ++ t) = text.isPrefixOf t := by
    intro t
    rw [Bool.eq_iff_iff, List.isPrefixOf_iff_prefix, List.isPrefixOf_iff_prefix, List.prefix_append_right_inj]
  rw [compiled_plain hbracket, exec_compiled, hstart, List.length_append, List.drop_length_add_append]
  cases parts with
  | nil => simp [join, captures, captured, hne]
  | cons part parts =>
    rw [captures, join_cons]
    by_cases heq : part = text
    · rw [if_pos heq, heq, if_pos (by simp), List.drop_left, ih part parts rfl]
    · rw [if_neg heq]
      split
      · rename_i hpre
        obtain ⟨after, hafter⟩ := List.isPrefixOf_iff_prefix.mp hpre
        rw [← hafter, List.drop_left]
        -- The text ends inside the part, so that the next character is no slash.
        rcases List.append_eq_append_iff.mp hafter with ⟨middle, hpart, hmiddle⟩ | ⟨middle, hmore, hmiddle⟩
        · cases middle with
          | nil => exact absurd (by simpa using hpart) heq
          | cons c middle =>
            have hc : c ≠ slash := fun hc => hslash part List.mem_cons_self (hpart ▸ by simp [hc])
            rw [hmiddle, List.cons_append, exec_compiled_eq_none ss hc]
            rfl
        · cases middle with
          | nil => exact absurd (by simpa using hmore.symm) heq
          | cons c middle =>
            have hc : c = slash := @head?_pathTail parts c (by rw [hmiddle]; rfl)
            exact absurd (hmore ▸ by simp [hc]) htext
      · rfl

theorem captured_single {name : Text} (hne : (Parameter.single name).name ≠ [])
    (hword : ∀ c ∈ (Parameter.single name).name, isWord c = true)
    (hparts : ∀ part ∈ parts, part ≠ []) (hslash : ∀ part ∈ parts, slash ∉ part)
    (ih : ∀ part parts', parts = part :: parts' → captured (exec (compiled [] (spellAll ss)) (pathTail parts')) = captures ss parts') :
    captured (exec (compiled literal ((Parameter.single name).matchedText ++ spellAll ss)) (literal ++ join parts)) =
      captures (.parameter (.single name) hne hword :: ss) parts := by
  rw [compiled_parameter hne hword, parameterParts, List.cons_append, exec_literal, List.singleton_append,
    exec]
  cases parts with
  | nil => rfl
  | cons part parts =>
    have hrun : ∀ c ∈ part, decide (c ≠ slash) = true := fun c hc =>
      decide_eq_true fun heq => hslash part List.mem_cons_self (heq ▸ hc)
    have hrest : ∀ c ∈ (pathTail parts).head?, decide (c ≠ slash) = false := fun c hc =>
      decide_eq_false (not_not.mpr (head?_pathTail hc))
    have hnext : ∀ c t, decide (c ≠ slash) = true → exec (compiled [] (spellAll ss)) (c :: t) = none := fun c t hc =>
      exec_compiled_eq_none ss (of_decide_eq_true hc) t
    rw [join_cons, nonemptyRun_append (hparts part List.mem_cons_self) hrun hrest hnext, captures, ← ih part parts rfl]
    simp [captured, Option.map_map, Function.comp_def]

theorem captured_catchAll {name : Text} (hne : (Parameter.catchAll name).name ≠ [])
    (hword : ∀ c ∈ (Parameter.catchAll name).name, isWord c = true)
    (hparts : ∀ part ∈ parts, part ≠ []) :
    captured (exec (compiled literal ((Parameter.catchAll name).matchedText ++ spellAll [])) (literal ++ join parts)) =
      captures [.parameter (.catchAll name) hne hword] parts := by
  have hrun := @nonemptyRun_all _ dot _ [] (exec_end []) (fun c t => exec_end (c :: t)) (join parts)
  rw [compiled_parameter hne hword, parameterParts, List.cons_append, exec_literal,
    List.singleton_append, exec, hrun, captures]
  simp only [ne_eq, join_eq_nil_iff hparts, lineFree_iff]
  split <;> rfl

theorem captured_optionalCatchAll {name : Text} (hne : (Parameter.optionalCatchAll name).name ≠ [])
    (hword : ∀ c ∈ (Parameter.optionalCatchAll name).name, isWord c = true)
    (hliteral : literal = [] ∨ literal = [slash]) :
    captured (exec (compiled literal ((Parameter.optionalCatchAll name).matchedText ++ spellAll [])) (literal ++ join parts)) =
      captures [.parameter (.optionalCatchAll name) hne hword] parts := by
  have hrun := @longestRun_all _ dot _ [] (exec_end []) (fun c t => exec_end (c :: t)) (join parts)
  rw [lineFree_iff] at hrun
  rw [compiled_parameter hne hword, captures, List.isEmpty_nil]
  rcases hliteral with rfl | rfl
  · have hparts : parameterParts [] (.optionalCatchAll name) true = [.literal [], .any] := rfl
    rw [hparts, List.cons_append, exec_literal, List.singleton_append, exec, hrun]
    split <;> rfl
  · have hparts : parameterParts [slash] (.optionalCatchAll name) true = [.literal [], .optionalTail] := rfl
    rw [hparts, List.cons_append, exec_literal_nil, List.singleton_append, List.singleton_append, exec, List.head?_cons,
      if_pos rfl, List.tail_cons, hrun, exec_end, if_neg (List.cons_ne_nil _ _)]
    split <;> rfl

theorem captured_first {s : StandardSegment} (hliteral : literal = [] ∨ literal = [slash]) (hlast : CatchAllLast (s :: ss))
    (hparts : ∀ part ∈ parts, part ≠ []) (hslash : ∀ part ∈ parts, slash ∉ part)
    (ih : ∀ part parts', parts = part :: parts' → captured (exec (compiled [] (spellAll ss)) (pathTail parts')) = captures ss parts') :
    captured (exec (compiled literal (s.spell ++ spellAll ss)) (literal ++ join parts)) = captures (s :: ss) parts := by
  cases s with
  | plain text hne htext hbracket => exact captured_plain hne htext hbracket hslash ih
  | parameter p hne hword =>
    cases p with
    | single name => exact captured_single hne hword hparts hslash ih
    | catchAll name =>
      obtain rfl := hlast.tail_eq_nil rfl
      exact captured_catchAll hne hword hparts
    | optionalCatchAll name =>
      obtain rfl := hlast.tail_eq_nil rfl
      exact captured_optionalCatchAll hne hword hliteral

theorem captured_tail (hlast : CatchAllLast ss) (hparts : ∀ part ∈ parts, part ≠ []) (hslash : ∀ part ∈ parts, slash ∉ part) :
    captured (exec (compiled [] (spellAll ss)) (pathTail parts)) = captures ss parts := by
  induction ss generalizing parts with
  | nil =>
    rw [exec_end]
    cases parts <;> rfl
  | cons s ss ih =>
    have hspell : spellAll (s :: ss) = [slash] ++ (s.spell ++ spellAll ss) := rfl
    rw [hspell, compiled_plain (by decide), List.nil_append]
    cases parts with
    | nil =>
      cases s with
      | plain text hne htext hbracket =>
        rw [spell, compiled_plain hbracket, exec_compiled]
        rfl
      | parameter p hne hword =>
        rw [spell, compiled_parameter hne hword]
        cases p with
        | single name => rfl
        | catchAll name => rfl
        | optionalCatchAll name =>
          obtain rfl := hlast.tail_eq_nil rfl
          rfl
    | cons part parts =>
      have hpath : pathTail (part :: parts) = [slash] ++ join (part :: parts) := by rw [join_cons]; rfl
      rw [hpath]
      refine captured_first (.inr rfl) hlast hparts hslash ?_
      intro _ _ heq
      obtain ⟨rfl, rfl⟩ := List.cons.inj heq
      exact ih hlast.tail (fun p hp => hparts p (List.mem_cons_of_mem _ hp)) (fun p hp => hslash p (List.mem_cons_of_mem _ hp))

end Segments

theorem pathTail_spell (ss : List StandardSegment) : pathTail (ss.map spell) = spellAll ss := by
  rw [pathTail, List.flatMap_map]
  rfl

theorem captured_pattern (pattern : SegmentPattern) (path : List PathPart) (rooted : Bool) (page : Text) :
    captured (exec (parseRoute (pattern.text rooted) page).regex (pathText path rooted)) =
      captures pattern.segments (path.map PathPart.text) := by
  have hroute : (parseRoute (pattern.text rooted) page).regex = compiled [] (pattern.text rooted) := rfl
  have hparts : ∀ part ∈ path.map PathPart.text, part ≠ [] := by simp [PathPart.nonempty]
  have hslash : ∀ part ∈ path.map PathPart.text, slash ∉ part := by simp [PathPart.noSlash]
  obtain ⟨literal, hliteral, hrooted⟩ : ∃ literal, (literal = [] ∨ literal = [slash]) ∧
      ∀ t, rootedText rooted t = literal ++ t := by
    cases rooted with
    | false => exact ⟨[], .inl rfl, fun t => rfl⟩
    | true => exact ⟨[slash], .inr rfl, fun t => rfl⟩
  have hbracket : bracket ∉ literal := by rcases hliteral with rfl | rfl <;> decide
  rw [hroute, SegmentPattern.text, pathText, hrooted, hrooted, compiled_plain hbracket, List.nil_append]
  cases hss : pattern.segments with
  | nil =>
    have hend := exec_compiled [] literal (literal ++ join (path.map PathPart.text))
    rw [if_pos (by simp), List.drop_left, exec_end] at hend
    rw [show join (List.map spell []) = spellAll [] from rfl, hend]
    simp only [join_eq_nil_iff hparts]
    cases path <;> rfl
  | cons s ss =>
    have hlast : CatchAllLast (s :: ss) := hss ▸ pattern.catchAllLast
    rw [List.map_cons, join_cons, pathTail_spell]
    refine captured_first hliteral hlast hparts hslash ?_
    intro part parts' heq
    rw [heq] at hparts hslash
    exact captured_tail hlast.tail (fun p hp => hparts p (List.mem_cons_of_mem _ hp))
      (fun p hp => hslash p (List.mem_cons_of_mem _ hp))

/-! ## The parameters of a match -/

theorem decodeFrom_plain {t : Text} (h : percent ∉ t) : decodeFrom 0 t = some t := by
  induction t with
  | nil => rfl
  | cons c t ih =>
    have hc : c ≠ 37 := fun heq => h (heq ▸ List.mem_cons_self)
    rw [decodeFrom, if_neg hc, ih fun hmem => h (List.mem_cons_of_mem _ hmem)]
    rfl

theorem safeDecodeParam_plain {t : Text} (h : percent ∉ t) : safeDecodeParam t = t := by
  rw [safeDecodeParam, decodeURIComponent, decodeFrom_plain h]
  rfl

theorem decodeCatchAllValue_join {parts : List Text} (hne : ∀ part ∈ parts, part ≠ []) (hslash : ∀ part ∈ parts, slash ∉ part)
    (hpercent : ∀ part ∈ parts, percent ∉ part) : decodeCatchAllValue (join parts) = parts := by
  have hsplit := segments_rootedText false hne hslash
  have hdecode : parts.map safeDecodeParam = parts := by
    rw [List.map_congr_left fun p hp => safeDecodeParam_plain (hpercent p hp), List.map_id']
  rw [decodeCatchAllValue]
  exact (congrArg (List.map safeDecodeParam) hsplit).trans hdecode

def valueOf (p : Parameter) (capture : Text) : Text × ParamValue :=
  (p.name, if p.isCatchAll then .many (decodeCatchAllValue capture) else .one (safeDecodeParam capture))

/-! A name counts as that of a catch-all if it stands in the brackets of one. -/

theorem extractCatchAllParams_cons (c : Nat) (rest : Text) :
    extractCatchAllParams (c :: rest) = (bracketed "[..." "]" (c :: rest)).toList ++ extractCatchAllParams rest := by
  rw [extractCatchAllParams, show (c :: rest).tails = (c :: rest) :: rest.tails from rfl, List.filterMap_cons]
  cases bracketed "[..." "]" (c :: rest) <;> rfl

theorem extractCatchAllParams_plain {text : Text} (h : bracket ∉ text) (rest : Text) :
    extractCatchAllParams (text ++ rest) = extractCatchAllParams rest := by
  induction text with
  | nil => rfl
  | cons c text ih =>
    have hc : 91 ≠ c := fun heq => h (heq ▸ List.mem_cons_self)
    rw [List.cons_append, extractCatchAllParams_cons, ih fun hmem => h (List.mem_cons_of_mem _ hmem)]
    simp [bracketed, openings, Text.startsWith, hc]

theorem extractCatchAllParams_matchedText {p : Parameter} (hne : p.name ≠ []) (hword : ∀ c ∈ p.name, isWord c = true)
    (rest : Text) : extractCatchAllParams (p.matchedText ++ rest) =
      (if p.isCatchAll then [p.name] else []) ++ extractCatchAllParams rest := by
  have hplain : ∀ before name after, bracket ∉ before → (∀ c ∈ name, isWord c = true) → bracket ∉ after →
      extractCatchAllParams (before ++ (name ++ (after ++ rest))) = extractCatchAllParams rest := by
    intro before name after hbefore hword hafter
    have hname : bracket ∉ name := fun hmem => absurd (hword bracket hmem) (by decide)
    rw [extractCatchAllParams_plain hbefore, extractCatchAllParams_plain hname, extractCatchAllParams_plain hafter]
  cases p with
  | single name =>
    have hno := (startsWith_name name hne hword).2
    have htext : (Parameter.single name).matchedText ++ rest = 91 :: (name ++ ([93] ++ rest)) := by
      simp [Parameter.matchedText, openings, closings]
    obtain ⟨c, name, rfl⟩ := List.exists_cons_of_ne_nil hne
    have hdot : 46 ≠ c := fun heq => absurd (hword c List.mem_cons_self) (heq ▸ by decide)
    rw [htext, extractCatchAllParams_cons, ← List.nil_append (c :: name ++ _),
      hplain [] (c :: name) [93] (by decide) hword (by decide)]
    simp [bracketed, openings, Text.startsWith, List.isPrefixOf, hdot, Parameter.isCatchAll]
  | catchAll name =>
    have hread := takeWhile_word hword rest
    have htext : (Parameter.catchAll name).matchedText ++ rest = 91 :: ([46, 46, 46] ++ (name ++ ([93] ++ rest))) := by
      simp [Parameter.matchedText, openings, closings]
    simp only [Parameter.name] at hne hread
    rw [htext, extractCatchAllParams_cons, hplain [46, 46, 46] name [93] (by decide) hword (by decide)]
    simp [bracketed, openings, closings, Text.startsWith, hread, hne, Parameter.isCatchAll, Parameter.name]
  | optionalCatchAll name =>
    have hread := takeWhile_word hword (93 :: rest)
    have htext : (Parameter.optionalCatchAll name).matchedText ++ rest =
        91 :: 91 :: ([46, 46, 46] ++ (name ++ ([93, 93] ++ rest))) := by
      simp [Parameter.matchedText, openings, closings]
    simp only [Parameter.name] at hne hread
    rw [htext, extractCatchAllParams_cons, extractCatchAllParams_cons,
      hplain [46, 46, 46] name [93, 93] (by decide) hword (by decide)]
    simp [bracketed, openings, closings, Text.startsWith, List.isPrefixOf, hread, hne, Parameter.isCatchAll, Parameter.name]

def catchAllNames (ss : List StandardSegment) : List Text :=
  ((ss.filterMap parameter?).filter Parameter.isCatchAll).map Parameter.name

theorem extractCatchAllParams_spell (s : StandardSegment) (rest : Text) :
    extractCatchAllParams (s.spell ++ rest) = catchAllNames [s] ++ extractCatchAllParams rest := by
  cases s with
  | plain text hne hslash hbracket => exact extractCatchAllParams_plain hbracket rest
  | parameter p hne hword =>
    rw [spell, extractCatchAllParams_matchedText hne hword]
    cases p <;> rfl

theorem extractCatchAllParams_spellAll (ss : List StandardSegment) : extractCatchAllParams (spellAll ss) = catchAllNames ss := by
  induction ss with
  | nil => decide
  | cons s ss ih =>
    have hspell : spellAll (s :: ss) = [slash] ++ (s.spell ++ spellAll ss) := rfl
    rw [hspell, extractCatchAllParams_plain (by decide), extractCatchAllParams_spell, ih]
    simp [catchAllNames, ← List.map_append, ← List.filter_append, ← List.filterMap_append]

theorem extractCatchAllParams_pattern (pattern : SegmentPattern) (rooted : Bool) :
    extractCatchAllParams (pattern.text rooted) = catchAllNames pattern.segments := by
  have hjoin : extractCatchAllParams (join (pattern.segments.map spell)) = catchAllNames pattern.segments := by
    cases pattern.segments with
    | nil => decide
    | cons s ss =>
      rw [List.map_cons, join_cons, pathTail_spell, extractCatchAllParams_spell, extractCatchAllParams_spellAll]
      simp [catchAllNames, ← List.map_append, ← List.filter_append, ← List.filterMap_append]
  cases rooted with
  | false => exact hjoin
  | true => exact (@extractCatchAllParams_plain [slash] (by decide) _).trans hjoin

theorem paramsOf_eq {route : Route} {groups : List (Option Text)} {ps : List Parameter} {values : List Text}
    (hnames : route.paramNames = ps.map Parameter.name) (hvalues : groups.map (Option.getD · []) = values)
    (hlen : values.length = ps.length)
    (hcatch : ∀ p ∈ ps, p.name ∈ extractCatchAllParams route.pattern ↔ p.isCatchAll = true) :
    paramsOf route groups = objectOf setProperty (List.zipWith valueOf ps values) := by
  obtain rfl := hvalues
  rw [List.length_map] at hlen
  have hbound : List.zipWith valueOf ps (groups.map (Option.getD · [])) =
      route.paramNames.zipIdx.map fun named =>
        (named.1, if named.1 ∈ extractCatchAllParams route.pattern then
          .many (decodeCatchAllValue ((groups[named.2]?.join).getD []))
        else .one (safeDecodeParam ((groups[named.2]?.join).getD []))) := by
    refine List.ext_getElem (by simp [hnames, hlen]) fun i hi hi' => ?_
    have hps : i < ps.length := by simpa [hnames] using hi'
    have hgroup : (groups[i]?.join).getD [] = groups[i].getD [] := by
      rw [List.getElem?_eq_getElem (by omega)]
      rfl
    simp only [List.getElem_zipWith, List.getElem_map, List.getElem_zipIdx, hnames, Nat.zero_add, hgroup, valueOf]
    by_cases hp : ps[i].isCatchAll = true
    · rw [if_pos hp, if_pos ((hcatch _ (List.getElem_mem hps)).mpr hp)]
    · rw [if_neg hp, if_neg (mt (hcatch _ (List.getElem_mem hps)).mp hp)]
  rw [hbound, objectOf, List.foldl_map]
  rfl

/-! ## Where the expression and the walkers part -/

def lastParameter (ss : List StandardSegment) : Option Parameter := ss.getLast?.bind parameter?

def lacksRequired (ss : List StandardSegment) (parts : List Text) : Bool :=
  (lastParameter ss).any (fun p => p.isCatchAll && !p.isOptionalCatchAll) && decide (parts.length < ss.length)

def breaksLine (ss : List StandardSegment) (parts : List Text) : Bool :=
  (lastParameter ss).any Parameter.isCatchAll && !lineFree (parts.drop (ss.length - 1))

theorem parts_cons {s : StandardSegment} {ss : List StandardSegment} (hs : s.isCatchAll = false) (part : Text)
    (parts : List Text) : (lacksRequired (s :: ss) (part :: parts) || breaksLine (s :: ss) (part :: parts)) =
      (lacksRequired ss parts || breaksLine ss parts) := by
  cases ss with
  | nil =>
    have hlast : lastParameter [s] = s.parameter? := rfl
    rw [StandardSegment.isCatchAll] at hs
    rw [lacksRequired, breaksLine, hlast]
    cases hp : s.parameter? with
    | none => rfl
    | some p =>
      rw [hp] at hs
      simp [show p.isCatchAll = false from hs, lacksRequired, breaksLine, lastParameter]
  | cons s' ss =>
    have hlast : lastParameter (s :: s' :: ss) = lastParameter (s' :: ss) := by
      rw [lastParameter, List.getLast?_cons_cons]
      rfl
    simp [lacksRequired, breaksLine, hlast]

theorem captures_bind {ss : List StandardSegment} {parts : List Text} (hlast : CatchAllLast ss)
    (hne : ∀ part ∈ parts, part ≠ []) (hslash : ∀ part ∈ parts, slash ∉ part) (hpercent : ∀ part ∈ parts, percent ∉ part) :
    (captures ss parts).map (List.zipWith valueOf (ss.filterMap parameter?)) =
      if lacksRequired ss parts || breaksLine ss parts then none else bindParams ss parts := by
  induction ss generalizing parts with
  | nil => cases parts <;> rfl
  | cons s ss ih =>
    have ih' : ∀ part parts', parts = part :: parts' →
        (captures ss parts').map (List.zipWith valueOf (ss.filterMap parameter?)) =
          if lacksRequired ss parts' || breaksLine ss parts' then none else bindParams ss parts' := by
      rintro part parts' rfl
      exact ih hlast.tail (fun p hp => hne p (List.mem_cons_of_mem _ hp)) (fun p hp => hslash p (List.mem_cons_of_mem _ hp))
        (fun p hp => hpercent p (List.mem_cons_of_mem _ hp))
    have hmany := decodeCatchAllValue_join hne hslash hpercent
    cases s with
    | plain text hne' hslash' hbracket =>
      cases parts with
      | nil => simp [captures, bindParams]
      | cons part parts =>
        rw [parts_cons rfl, captures, bindParams, List.filterMap_cons_none rfl]
        by_cases heq : part = text
        · rw [if_pos heq, if_pos heq, ih' part parts rfl]
        · simp [heq]
    | parameter p hne' hword =>
      have hfilter : (parameter p hne' hword :: ss).filterMap parameter? = p :: ss.filterMap parameter? := rfl
      rw [hfilter]
      cases p with
      | single name =>
        cases parts with
        | nil => simp [captures, bindParams]
        | cons part parts =>
          have hpart : valueOf (.single name) part = (name, .one part) := by
            simp [valueOf, Parameter.isCatchAll, Parameter.name, safeDecodeParam_plain (hpercent part List.mem_cons_self)]
          have hmap := congrArg (Option.map ((name, ParamValue.one part) :: ·)) (ih' part parts rfl)
          rw [parts_cons rfl, captures, bindParams, Option.map_map]
          rw [Option.map_map] at hmap
          rw [apply_ite (Option.map _), Option.map_none] at hmap
          rw [← hmap]
          exact congrArg (fun f => Option.map f _) (funext fun values => by simp [hpart])
      | catchAll name =>
        obtain rfl := hlast.tail_eq_nil rfl
        cases hline : lineFree parts <;> cases parts <;>
          simp_all [captures, bindParams, lacksRequired, breaksLine, lastParameter, parameter?, Parameter.isCatchAll,
            Parameter.isOptionalCatchAll, valueOf, Parameter.name]
      | optionalCatchAll name =>
        obtain rfl := hlast.tail_eq_nil rfl
        cases hline : lineFree parts <;>
          simp_all [captures, bindParams, lacksRequired, breaksLine, lastParameter, parameter?, Parameter.isCatchAll,
            Parameter.isOptionalCatchAll, valueOf, Parameter.name]

theorem captures_length {ss : List StandardSegment} {parts values : List Text} (hlast : CatchAllLast ss)
    (h : captures ss parts = some values) : values.length = (ss.filterMap parameter?).length := by
  induction ss generalizing parts values with
  | nil =>
    cases parts with
    | nil => simpa [captures, eq_comm] using h
    | cons part parts => cases h
  | cons s ss ih =>
    cases s with
    | plain text hne hslash hbracket =>
      cases parts with
      | nil => cases h
      | cons part parts =>
        rw [captures] at h
        split at h
        · exact ih hlast.tail h
        · cases h
    | parameter p hne hword =>
      cases p with
      | single name =>
        cases parts with
        | nil => cases h
        | cons part parts =>
          obtain ⟨values', hvalues, rfl⟩ := Option.map_eq_some_iff.mp h
          exact congrArg (· + 1) (ih hlast.tail hvalues)
      | catchAll name | optionalCatchAll name =>
        obtain rfl := hlast.tail_eq_nil rfl
        rw [captures] at h
        split at h
        · obtain rfl := Option.some.inj h
          rfl
        · cases h

section Matchers

variable (pattern : SegmentPattern) (path : List PathPart) (rooted : Bool) (page : Text)

def matchParams (pathname : Text) (route : Route) : Option (OrdMap Text ParamValue) :=
  (matchRoute pathname route).map RouteMatch.params

theorem extractParamsFromPattern_eq : extractParamsFromPattern (pattern.text rooted) (pathText path rooted) =
    (bindParams pattern.segments (path.map PathPart.text)).map (objectOf OrdMap.set) :=
  Walker.extract_eq patternWalker_reads pattern path rooted

theorem extractParams_eq : extractParams (pattern.text rooted) (pathText path rooted) =
    (bindParams pattern.segments (path.map PathPart.text)).map (objectOf setProperty) :=
  Walker.extract_eq slugWalker_reads pattern path rooted

theorem mem_catchAllNames {p : Parameter} (h : p ∈ pattern.segments.filterMap parameter?) :
    p.name ∈ catchAllNames pattern.segments ↔ p.isCatchAll = true := by
  rw [catchAllNames, List.mem_map]
  constructor
  · rintro ⟨q, hq, hname⟩
    obtain ⟨hmem, hcatch⟩ := List.mem_filter.mp hq
    rwa [List.inj_on_of_nodup_map pattern.names_nodup hmem h hname] at hcatch
  · intro hcatch
    exact ⟨p, List.mem_filter.mpr ⟨h, hcatch⟩, rfl⟩

theorem paramNames_pattern :
    (parseRoute (pattern.text rooted) page).paramNames = (pattern.segments.filterMap parameter?).map Parameter.name := by
  have hscan : ∀ literal ss, (scanParameters 0 literal (join (List.map spell ss))).1.map Prod.snd = ss.filterMap parameter? := by
    intro literal ss
    cases ss with
    | nil => rfl
    | cons s ss =>
      rw [List.map_cons, join_cons, pathTail_spell]
      cases s with
      | plain text hne hslash hbracket =>
        rw [spell, scanParameters_plain hbracket]
        exact (scanParameters_spellAll ss _).1
      | parameter p hne hword =>
        rw [spell, scanParameters_parameter hne hword, List.map_cons, (scanParameters_spellAll ss []).1]
        rfl
  have hnames : (parseRoute (pattern.text rooted) page).paramNames =
      ((scanParameters 0 [] (pattern.text rooted)).1.map Prod.snd).map Parameter.name := by
    rw [List.map_map]
    rfl
  rw [hnames]
  cases rooted with
  | false => exact congrArg _ (hscan [] pattern.segments)
  | true =>
    have hslash := @scanParameters_plain [slash] (by decide) [] (join (pattern.segments.map spell))
    rw [SegmentPattern.text, rootedText, if_pos rfl, ← List.singleton_append, hslash]
    exact congrArg _ (hscan _ pattern.segments)

theorem matchParams_eq : matchParams (pathText path rooted) (parseRoute (pattern.text rooted) page) =
    if lacksRequired pattern.segments (path.map PathPart.text) || breaksLine pattern.segments (path.map PathPart.text) then none
    else (bindParams pattern.segments (path.map PathPart.text)).map (objectOf setProperty) := by
  have hcaptured := captured_pattern pattern path rooted page
  have hbind := @captures_bind _ (path.map PathPart.text) pattern.catchAllLast (by simp [PathPart.nonempty])
    (by simp [PathPart.noSlash]) (by simp [PathPart.noPercent])
  have hparams : ∀ groups, exec (parseRoute (pattern.text rooted) page).regex (pathText path rooted) = some groups →
      paramsOf (parseRoute (pattern.text rooted) page) groups = objectOf setProperty
        (List.zipWith valueOf (pattern.segments.filterMap parameter?) (groups.map (Option.getD · []))) := by
    intro groups hexec
    rw [hexec] at hcaptured
    refine paramsOf_eq (paramNames_pattern pattern rooted page) rfl (captures_length pattern.catchAllLast hcaptured.symm) ?_
    intro p hp
    rw [show (parseRoute (pattern.text rooted) page).pattern = pattern.text rooted from rfl, extractCatchAllParams_pattern]
    exact mem_catchAllNames pattern hp
  rw [← Option.map_none (objectOf setProperty), ← apply_ite, ← hbind, ← hcaptured, matchParams, matchRoute, captured,
    Option.map_map, Option.map_map, Option.map_map]
  cases hexec : exec (parseRoute (pattern.text rooted) page).regex (pathText path rooted) with
  | none => rfl
  | some groups => exact congrArg some (hparams groups hexec)

/-- All three bind the same parameters, or none of them matches. -/
def MatchersAgree (pattern pathname page : Text) : Prop :=
  extractParamsFromPattern pattern pathname = extractParams pattern pathname ∧
    matchParams pathname (parseRoute pattern page) = extractParams pattern pathname

end Matchers

theorem bindParams_names {ss : List StandardSegment} {parts : List Text} {bound : List (Text × ParamValue)}
    (h : bindParams ss parts = some bound) : ∀ param ∈ bound, param.1 ∈ (ss.filterMap parameter?).map Parameter.name := by
  induction ss generalizing parts bound with
  | nil =>
    cases parts with
    | nil => simp_all [bindParams]
    | cons part parts => cases h
  | cons s ss ih =>
    cases s with
    | plain text hne hslash hbracket =>
      cases parts with
      | nil => cases h
      | cons part parts =>
        rw [bindParams] at h
        split at h
        · exact ih h
        · cases h
    | parameter p hne hword =>
      have hfilter : (parameter p hne hword :: ss).filterMap parameter? = p :: ss.filterMap parameter? := rfl
      rw [hfilter, List.map_cons]
      cases p with
      | single name =>
        cases parts with
        | nil => cases h
        | cons part parts =>
          obtain ⟨bound', hbound, rfl⟩ := Option.map_eq_some_iff.mp h
          rintro param (_ | ⟨_, hmem⟩)
          · exact List.mem_cons_self
          · exact List.mem_cons_of_mem _ (ih hbound param hmem)
      | catchAll name | optionalCatchAll name =>
        obtain rfl := Option.some.inj h
        rintro param (_ | ⟨_, ⟨⟩⟩)
        exact List.mem_cons_self

theorem objectOf_setProperty {bound : List (Text × ParamValue)} (h : ∀ param ∈ bound, param.1 ≠ .of "__proto__") :
    objectOf setProperty bound = objectOf OrdMap.set bound := by
  have hfold : ∀ object, bound.foldl (fun object param => setProperty object param.1 param.2) object =
      bound.foldl (fun object param => object.set param.1 param.2) object := by
    induction bound with
    | nil => exact fun _ => rfl
    | cons param bound ih =>
      intro object
      rw [List.foldl_cons, List.foldl_cons, setProperty, if_neg (h param List.mem_cons_self)]
      exact ih (fun p hp => h p (List.mem_cons_of_mem _ hp)) _
  exact hfold .empty

/-- The walkers agree, and the page route matcher agrees with them but for a required
catch-all with nothing left, where it fails. -/
theorem matchers_agree (pattern : SegmentPattern) (path : List PathPart) (rooted : Bool) (page : Text)
    (hproto : .of "__proto__" ∉ (pattern.segments.filterMap parameter?).map Parameter.name)
    (hline : breaksLine pattern.segments (path.map PathPart.text) = false) :
    extractParamsFromPattern (pattern.text rooted) (pathText path rooted) =
        extractParams (pattern.text rooted) (pathText path rooted) ∧
      matchParams (pathText path rooted) (parseRoute (pattern.text rooted) page) =
        if lacksRequired pattern.segments (path.map PathPart.text) then none
        else extractParams (pattern.text rooted) (pathText path rooted) := by
  rw [matchParams_eq, extractParamsFromPattern_eq, extractParams_eq, hline, Bool.or_false]
  refine ⟨?_, rfl⟩
  cases hbound : bindParams pattern.segments (path.map PathPart.text) with
  | none => rfl
  | some bound =>
    have hnames := bindParams_names hbound
    refine congrArg some (objectOf_setProperty fun param hmem heq => hproto ?_).symm
    rw [← heq]
    exact hnames param hmem

/-- `/docs/[...slug]` -/
def docsPattern : SegmentPattern where
  segments := [.plain (.of "docs") (by decide) (by decide) (by decide), .parameter (.catchAll (.of "slug")) (by decide) (by decide)]
  catchAllLast := by
    unfold CatchAllLast
    decide
  names_nodup := by decide

def docsPart : PathPart := ⟨.of "docs", by decide, by decide, by decide⟩

theorem matchers_agree_docs :
    extractParamsFromPattern (docsPattern.text true) (pathText [docsPart, docsPart] true) =
        extractParams (docsPattern.text true) (pathText [docsPart, docsPart] true) ∧
      matchParams (pathText [docsPart, docsPart] true) (parseRoute (docsPattern.text true) []) =
        if lacksRequired docsPattern.segments ([docsPart, docsPart].map PathPart.text) then none
        else extractParams (docsPattern.text true) (pathText [docsPart, docsPart] true) :=
  matchers_agree docsPattern [docsPart, docsPart] true [] (by decide) (by decide)

/-- On `/docs` the walkers give the empty list, and the page route matcher fails. -/
theorem matchers_disagree :
    ¬ ∀ pattern path rooted page, MatchersAgree (SegmentPattern.text pattern rooted) (pathText path rooted) page := by
  intro hall
  have hwalker : extractParams (docsPattern.text true) (pathText [docsPart] true) =
      some (OrdMap.empty.set (.of "slug") (.many [])) := by decide
  have hmatcher : matchParams (pathText [docsPart] true) (parseRoute (docsPattern.text true) []) = none := by
    decide
  have hagree := (hall docsPattern [docsPart] true []).2
  rw [hwalker, hmatcher] at hagree
  cases hagree

end Veryfront.Routing
