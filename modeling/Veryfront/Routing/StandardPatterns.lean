import Veryfront.Routing.StaticRoutes

/-!
# Standard patterns

In a standard pattern each segment is a plain text or a single parameter, and only the last one can be a
catch-all. Among the standard patterns that match a path, a catch-all never gets ahead of a route it should yield
to, and a static route, if it is not that of the root, loses only to an optional catch-all right below it, and only if
at most one of the segments before that is a parameter.
-/

namespace Veryfront.Routing

open Lib

def bracket : Nat := 91

/-- The name of a parameter is a word. -/
inductive StandardSegment
  | plain (text : Text) (nonempty : text ≠ []) (noSlash : slash ∉ text) (noBracket : bracket ∉ text)
  | parameter (parameter : Parameter) (nonempty : parameter.name ≠ []) (word : ∀ c ∈ parameter.name, isWord c = true)

namespace StandardSegment

def spell : StandardSegment → Text
  | plain text .. => text
  | parameter p .. => p.matchedText

def parameter? : StandardSegment → Option Parameter
  | plain .. => none
  | parameter p .. => some p

def spellAll (segments : List StandardSegment) : Text := segments.flatMap fun s => slash :: s.spell

end StandardSegment

open StandardSegment

/-! ## The brackets -/

theorem isWord_range {c : Nat} (h : isWord c = true) : 48 ≤ c ∧ c ≤ 122 ∧ c ≠ 91 ∧ c ≠ 93 := by
  simp only [isWord, Bool.or_eq_true, Bool.and_eq_true, decide_eq_true_eq] at h
  omega

theorem openings :
    Text.of "[[..." = [91, 91, 46, 46, 46] ∧ Text.of "[..." = [91, 46, 46, 46] ∧ Text.of "[" = [91] := by
  decide

theorem closings : Text.of "]]" = [93, 93] ∧ Text.of "]" = [93] := by decide

theorem takeWhile_word {name : Text} (h : ∀ c ∈ name, isWord c = true) (rest : Text) :
    (name ++ 93 :: rest).takeWhile isWord = name := by
  rw [List.takeWhile_append_of_pos h]
  simp [isWord]

theorem parameterAt_matchedText {p : Parameter} (hne : p.name ≠ []) (hword : ∀ c ∈ p.name, isWord c = true) (rest : Text) :
    parameterAt (p.matchedText ++ rest) = some p := by
  cases p with
  | optionalCatchAll name =>
    have hread := takeWhile_word hword (93 :: rest)
    simp only [Parameter.name] at hne hread
    simp [parameterAt, Parameter.matchedText, bracketed, openings, closings, Text.startsWith, hread, hne]
  | catchAll name =>
    have hread := takeWhile_word hword rest
    simp only [Parameter.name] at hne hread
    simp [parameterAt, Parameter.matchedText, bracketed, openings, closings, Text.startsWith, hread, hne]
  | single name =>
    have hread := takeWhile_word hword rest
    simp only [Parameter.name] at hne hword hread
    obtain ⟨c, name', rfl⟩ := List.exists_cons_of_ne_nil hne
    -- The name does not go on as the longer openings do.
    have hc := isWord_range (hword c List.mem_cons_self)
    have hdot : 46 ≠ c := by omega
    have hbracket : 91 ≠ c := by omega
    simp only [List.cons_append] at hread
    simp [parameterAt, Parameter.matchedText, bracketed, openings, closings, Text.startsWith, hread, hdot, hbracket]

/-! ## The parameters of a standard pattern -/

theorem parameterAt_eq_none {c : Nat} (h : c ≠ bracket) (rest : Text) : parameterAt (c :: rest) = none := by
  have hbracket : 91 ≠ c := fun h' => h h'.symm
  simp [parameterAt, bracketed, openings, Text.startsWith, hbracket]

theorem scanParameters_plain {text : Text} (h : bracket ∉ text) (literal rest : Text) :
    scanParameters 0 literal (text ++ rest) = scanParameters 0 (text.reverse ++ literal) rest := by
  induction text generalizing literal with
  | nil => rfl
  | cons c text ih =>
    have hc : c ≠ bracket := fun heq => h (heq ▸ List.mem_cons_self)
    rw [List.cons_append, scanParameters, parameterAt_eq_none hc]
    rw [ih (fun hmem => h (List.mem_cons_of_mem c hmem)), List.reverse_cons, List.append_assoc]
    rfl

theorem scanParameters_skip (skipped literal rest : Text) :
    scanParameters skipped.length literal (skipped ++ rest) = scanParameters 0 literal rest := by
  induction skipped with
  | nil => rfl
  | cons c skipped ih => exact ih

theorem scanParameters_parameter {p : Parameter} (hne : p.name ≠ []) (hword : ∀ c ∈ p.name, isWord c = true)
    (literal rest : Text) :
    scanParameters 0 literal (p.matchedText ++ rest) =
      ((literal.reverse, p) :: (scanParameters 0 [] rest).1, (scanParameters 0 [] rest).2) := by
  have hread := parameterAt_matchedText hne hword rest
  obtain ⟨c, text, htext⟩ : ∃ c text, p.matchedText = c :: text := by
    cases p <;> exact ⟨91, _, rfl⟩
  rw [htext, List.cons_append] at hread ⊢
  rw [scanParameters, hread]
  simp only [htext, List.length_cons, Nat.add_sub_cancel]
  rw [scanParameters_skip]

/-- How often the literal texts have a slash. -/
def slashCount (scanned : List (Text × Parameter) × Text) : Nat :=
  (scanned.1.map fun p => p.1.count slash).sum + scanned.2.count slash

theorem scanParameters_spellAll (segments : List StandardSegment) (literal : Text) :
    (scanParameters 0 literal (spellAll segments)).1.map Prod.snd = segments.filterMap parameter? ∧
      slashCount (scanParameters 0 literal (spellAll segments)) = literal.count slash + segments.length := by
  induction segments generalizing literal with
  | nil => simp [spellAll, scanParameters, slashCount]
  | cons s segments ih =>
    have hspell : spellAll (s :: segments) = [slash] ++ (s.spell ++ spellAll segments) := rfl
    rw [hspell, scanParameters_plain (by decide)]
    cases s with
    | plain text hne hslash hbracket =>
      rw [spell, scanParameters_plain hbracket]
      obtain ⟨hnames, hcount⟩ := ih (text.reverse ++ ([slash].reverse ++ literal))
      refine ⟨hnames, hcount.trans ?_⟩
      have hzero : text.count slash = 0 := List.count_eq_zero.mpr hslash
      simp [hzero]
      omega
    | parameter p hne hword =>
      rw [spell, scanParameters_parameter hne hword]
      obtain ⟨hnames, hcount⟩ := ih []
      refine ⟨by simp [hnames, parameter?], ?_⟩
      simp only [slashCount, List.count_nil, Nat.zero_add] at hcount
      simp [slashCount]
      omega

/-! ## The slashes of a match -/

def literalSlashes (parts : List RegexPart) : Nat :=
  (parts.map fun part => match part with | .literal text => text.count slash | _ => 0).sum

theorem literalSlashes_le {parts : List RegexPart} {t : Text} {groups : List (Option Text)}
    (h : exec parts t = some groups) : literalSlashes parts ≤ t.count slash := by
  induction parts generalizing t groups with
  | nil => exact Nat.zero_le _
  | cons part parts ih =>
    have hrun : ∀ {rest run : Text} {groups : List (Option Text)}, exec parts rest = some groups →
        literalSlashes parts ≤ (run ++ rest).count slash := by
      intro rest run groups hrest
      rw [List.count_append]
      exact Nat.le_trans (ih hrest) (Nat.le_add_left _ _)
    cases part with
    | literal text =>
      rw [exec] at h
      split at h
      · rename_i hpre
        obtain ⟨rest, rfl⟩ := List.isPrefixOf_iff_prefix.mp hpre
        rw [List.drop_left] at h
        have hle := ih h
        simp only [literalSlashes, List.map_cons, List.sum_cons, List.count_append] at hle ⊢
        omega
      · cases h
    | segment | some =>
      obtain ⟨⟨run, groups'⟩, hnext, -⟩ := Option.map_eq_some_iff.mp h
      obtain ⟨rest, rfl, hrest⟩ := nonemptyRun_eq hnext
      simpa [literalSlashes] using hrun hrest
    | any =>
      obtain ⟨⟨run, groups'⟩, hnext, -⟩ := Option.map_eq_some_iff.mp h
      obtain ⟨rest, rfl, hrest⟩ := longestRun_eq hnext
      simpa [literalSlashes] using hrun hrest
    | optionalTail =>
      rw [exec] at h
      rcases Option.or_eq_some_iff.mp h with h | ⟨-, h⟩
      · split at h
        · obtain ⟨⟨run, groups'⟩, hnext, -⟩ := Option.map_eq_some_iff.mp h
          obtain ⟨rest, htail, hrest⟩ := longestRun_eq hnext
          have hle : literalSlashes parts ≤ t.tail.count slash := htail ▸ hrun hrest
          simpa [literalSlashes] using Nat.le_trans hle ((List.tail_sublist t).count_le slash)
        · cases h
      · obtain ⟨groups', hrest, -⟩ := Option.map_eq_some_iff.mp h
        simpa [literalSlashes] using ih hrest

theorem slashCount_le (scanned : List (Text × Parameter)) (tail : Text) :
    slashCount (scanned, tail) ≤ literalSlashes (regexParts scanned tail) +
      if scanned.any fun p => p.2.isOptionalCatchAll then 1 else 0 := by
  induction scanned with
  | nil => simp [slashCount, literalSlashes, regexParts]
  | cons p scanned ih =>
    obtain ⟨literal, parameter⟩ := p
    rw [regexParts, literalSlashes, List.map_append, List.sum_append]
    simp only [slashCount, List.map_cons, List.sum_cons, literalSlashes] at ih ⊢
    cases parameter with
    | catchAll name =>
      rw [List.any_cons, show (Parameter.catchAll name).isOptionalCatchAll = false from rfl, Bool.false_or]
      simpa [parameterParts, Nat.add_assoc] using ih
    | single name =>
      rw [List.any_cons, show (Parameter.single name).isOptionalCatchAll = false from rfl, Bool.false_or]
      simpa [parameterParts, Nat.add_assoc] using ih
    | optionalCatchAll name =>
      rw [List.any_cons, show (Parameter.optionalCatchAll name).isOptionalCatchAll = true from rfl, Bool.true_or]
      simp only [parameterParts, if_true]
      split
      · rename_i hlast
        simp only [Bool.and_eq_true, List.isEmpty_iff] at hlast
        obtain ⟨⟨rfl, rfl⟩, hend⟩ := hlast
        obtain ⟨before, rfl⟩ : ∃ before, literal = before ++ [slash] := by
          obtain ⟨before, hbefore⟩ := List.isSuffixOf_iff_suffix.mp hend
          exact ⟨before, hbefore.symm⟩
        simp [regexParts]
      · simp only [List.map_cons, List.map_nil, List.sum_cons, List.sum_nil]
        split at ih <;> omega

theorem parseRoute_slashes {pattern page pathname : Text} (h : matchesPath pathname (parseRoute pattern page)) :
    slashCount (parameters pattern) ≤ pathname.count slash +
      if (parseRoute pattern page).isOptionalCatchAll then 1 else 0 := by
  rw [matchesPath, matchRoute, Option.isSome_map] at h
  obtain ⟨groups, hgroups⟩ := Option.isSome_iff_exists.mp h
  have hle := literalSlashes_le hgroups
  exact Nat.le_trans (slashCount_le (parameters pattern).1 (parameters pattern).2) (Nat.add_le_add_right hle _)

/-! ## What the segments lack -/

theorem slash_notMem_spell (s : StandardSegment) : slash ∉ s.spell := by
  cases s with
  | plain text hne hslash hbracket => exact hslash
  | parameter p hne hword =>
    have hname : slash ∉ p.name := fun hmem => absurd (hword slash hmem) (by decide)
    have hmarks : slash ∉ Text.of "[[..." ∧ slash ∉ Text.of "[..." ∧ slash ∉ Text.of "[" ∧ slash ∉ Text.of "]]" ∧
        slash ∉ Text.of "]" := by decide
    cases p <;> simp_all [spell, Parameter.matchedText, Parameter.name]

theorem spell_ne_nil (s : StandardSegment) : s.spell ≠ [] := by
  cases s with
  | plain text hne hslash hbracket => exact hne
  | parameter p hne hword => cases p <;> exact List.cons_ne_nil 91 _

def StandardSegment.lack : StandardSegment → Nat
  | plain .. => 0
  | parameter (.single _) .. => 1
  | parameter (.catchAll _) .. => 2
  | parameter (.optionalCatchAll _) .. => 3

theorem segments_spellAll (ss : List StandardSegment) : segments (spellAll ss) = ss.map spell := by
  induction ss using List.reverseRecOn with
  | nil => rfl
  | append_singleton ss s ih =>
    rw [spellAll] at ih
    rw [spellAll, List.flatMap_append, List.flatMap_singleton, segments, List.splitOn_append_cons_self, List.filter_append,
      List.splitOn_eq_singleton (slash_notMem_spell s), List.map_append, ← ih]
    simp [segments, spell_ne_nil s]

theorem count_slash_spellAll (ss : List StandardSegment) : (spellAll ss).count slash = ss.length := by
  induction ss with
  | nil => rfl
  | cons s ss ih =>
    have hzero : s.spell.count slash = 0 := List.count_eq_zero.mpr (slash_notMem_spell s)
    have hspell : spellAll (s :: ss) = slash :: (s.spell ++ spellAll ss) := rfl
    rw [hspell, List.count_cons_self, List.count_append, hzero, ih, List.length_cons, Nat.zero_add]

theorem parameters_spell (s : StandardSegment) :
    parameters s.spell = match s with | .plain text .. => ([], text) | .parameter p .. => ([([], p)], []) := by
  cases s with
  | plain text hne hslash hbracket =>
    have h := scanParameters_plain hbracket [] []
    rw [List.append_nil, List.append_nil] at h
    rw [parameters, spell, h, scanParameters, List.reverse_reverse]
  | parameter p hne hword =>
    have h := scanParameters_parameter hne hword [] []
    rw [List.append_nil] at h
    exact h

theorem includes_eq_false {t : Text} {s : String} {c : Nat} (hs : c ∈ Text.of s) (ht : c ∉ t) : t.includes s = false :=
  decide_eq_false fun h => ht (h.subset hs)

theorem lack_spell (s : StandardSegment) : Routing.lack s.spell = s.lack := by
  cases s with
  | plain text hne hslash hbracket =>
    have hno : ∀ s, bracket ∈ Text.of s → text.includes s = false := fun s hs => includes_eq_false hs hbracket
    simp [Routing.lack, spell, StandardSegment.lack, hno _ (by decide : bracket ∈ Text.of "[[..."),
      hno _ (by decide : bracket ∈ Text.of "[..."), hno _ (by decide : bracket ∈ Text.of "[")]
  | parameter p hne hword =>
    have hrange : ∀ c ∈ p.name, 48 ≤ c ∧ c ≤ 122 ∧ c ≠ 91 ∧ c ≠ 93 := fun c hc => isWord_range (hword c hc)
    cases p with
    | single name =>
      have hdot : 46 ∉ (Parameter.single name).matchedText := by
        intro hmem
        simp only [Parameter.matchedText, openings, closings, List.mem_append, List.mem_singleton] at hmem
        rcases hmem with (hmem | hmem) | hmem
        · cases hmem
        · exact absurd (hrange 46 hmem).1 (by decide)
        · cases hmem
      have hopening : (Parameter.single name).matchedText.includes "[" = true :=
        decide_eq_true ⟨[], name ++ Text.of "]", by simp [Parameter.matchedText]⟩
      simp [Routing.lack, spell, StandardSegment.lack, hopening,
        includes_eq_false (by decide : 46 ∈ Text.of "[[...") hdot, includes_eq_false (by decide : 46 ∈ Text.of "[...") hdot]
    | catchAll name =>
      have hopening : (Parameter.catchAll name).matchedText.includes "[..." = true :=
        decide_eq_true ⟨[], name ++ Text.of "]", by simp [Parameter.matchedText]⟩
      -- The bracket stands once, at the start.
      have hone : (Parameter.catchAll name).matchedText.count 91 = 1 := by
        have hzero : name.count 91 = 0 := List.count_eq_zero.mpr fun hmem => (hrange 91 hmem).2.2.1 rfl
        simp [Parameter.matchedText, openings, closings, hzero]
      have hdouble : (Parameter.catchAll name).matchedText.includes "[[..." = false := by
        refine decide_eq_false fun h => ?_
        have hle := h.sublist.count_le 91
        rw [hone, openings.1] at hle
        exact absurd hle (by decide)
      simp [Routing.lack, spell, StandardSegment.lack, hopening, hdouble]
    | optionalCatchAll name =>
      have hopening : (Parameter.optionalCatchAll name).matchedText.includes "[[..." = true :=
        decide_eq_true ⟨[], name ++ Text.of "]]", by simp [Parameter.matchedText]⟩
      simp [Routing.lack, spell, StandardSegment.lack, hopening]

theorem shortfall_spellAll (ss : List StandardSegment) : shortfall (spellAll ss) = (ss.map StandardSegment.lack).sum := by
  rw [shortfall, segments_spellAll, List.map_map]
  exact congrArg List.sum (List.map_congr_left fun s _ => lack_spell s)

/-! ## Standard patterns compared -/

def StandardSegment.isCatchAll (s : StandardSegment) : Bool := s.parameter?.any Parameter.isCatchAll

def CatchAllLast (ss : List StandardSegment) : Prop := ∀ s ∈ ss.dropLast, s.isCatchAll = false

variable {ss : List StandardSegment}

theorem CatchAllLast.tail {s : StandardSegment} (h : CatchAllLast (s :: ss)) :
    CatchAllLast ss := by
  cases ss with
  | nil => exact fun _ hs => nomatch hs
  | cons s' ss => exact fun t ht => h t (by simpa using .inr ht)

theorem CatchAllLast.tail_eq_nil {s : StandardSegment} (h : CatchAllLast (s :: ss))
    (hs : s.isCatchAll = true) : ss = [] := by
  cases ss with
  | nil => rfl
  | cons s' ss => exact absurd hs (by simp [h s (by simp)])

theorem isCatchAllSegment_spell (s : StandardSegment) : isCatchAllSegment s.spell = s.isCatchAll := by
  rw [isCatchAllSegment, parameters_spell]
  cases s with
  | plain text hne hslash hbracket => rfl
  | parameter p hne hword => simp [StandardSegment.isCatchAll, parameter?]

theorem lack_of_shape {s t : StandardSegment} (h : shape s.spell = shape t.spell) : s.lack = t.lack := by
  rw [shape, shape, parameters_spell, parameters_spell] at h
  rcases s with ⟨text, hne, hslash, hbracket⟩ | ⟨p, hne, hword⟩ <;>
    rcases t with ⟨text', hne', hslash', hbracket'⟩ | ⟨p', hne', hword'⟩
  · rfl
  · simp at h
  · simp at h
  · cases p <;> cases p' <;> simp_all [Parameter.kind, StandardSegment.lack]

theorem lack_lt {s t : StandardSegment} (hs : s.isCatchAll = true) (ht : t.isCatchAll = false) :
    t.lack < s.lack := by
  rcases s with ⟨text, hne, hslash, hbracket⟩ | ⟨p, hne, hword⟩
  · cases hs
  · rcases t with ⟨text', hne', hslash', hbracket'⟩ | ⟨p', hne', hword'⟩
    · cases p <;> simp [StandardSegment.lack]
    · cases p <;> cases p' <;> simp_all [StandardSegment.lack, StandardSegment.isCatchAll, parameter?, Parameter.isCatchAll]

theorem lack_le (ss : List StandardSegment) : (ss.map StandardSegment.lack).sum ≤ 3 * ss.length := by
  induction ss with
  | nil => exact Nat.le_refl _
  | cons s ss ih =>
    have hs : s.lack ≤ 3 := by
      rcases s with _ | ⟨p, _, _⟩
      · exact Nat.zero_le _
      · cases p <;> simp [StandardSegment.lack]
    rw [List.map_cons, List.sum_cons, List.length_cons]
    omega

theorem outweighs_spellAll {ts : List StandardSegment} : Outweighs (spellAll ss) (spellAll ts) ↔
    10 * (ss.map StandardSegment.lack).sum + 41 * ts.length < 10 * (ts.map StandardSegment.lack).sum + 41 * ss.length := by
  simp only [Outweighs, shortfall_spellAll, segments_spellAll, List.length_map]

theorem outweighs_of_yieldsTo {ts : List StandardSegment} (hss : CatchAllLast ss)
    (h : yieldsTo (ss.map spell) (ts.map spell) = true) : Outweighs (spellAll ts) (spellAll ss) := by
  induction ss generalizing ts with
  | nil => cases h
  | cons s ss ih =>
    cases ts with
    | nil => cases h
    | cons t ts =>
      simp only [List.map_cons, yieldsTo, isCatchAllSegment_spell, Bool.or_eq_true, Bool.and_eq_true, Bool.not_eq_true',
        decide_eq_true_eq] at h
      rw [outweighs_spellAll, List.map_cons, List.map_cons, List.sum_cons, List.sum_cons, List.length_cons, List.length_cons]
      rcases h with ⟨hs, ht⟩ | ⟨hshape, hrest⟩
      · obtain rfl := hss.tail_eq_nil hs
        -- What follows in the other pattern cannot lack as much as it adds.
        have hlack := lack_lt hs ht
        have hmore := lack_le ts
        simp only [List.map_nil, List.sum_nil, List.length_nil]
        omega
      · have hless := outweighs_spellAll.mp (ih hss.tail hrest)
        rw [lack_of_shape hshape]
        omega

theorem parameters_le_lack (ss : List StandardSegment) : (ss.filterMap parameter?).length ≤ (ss.map StandardSegment.lack).sum := by
  induction ss with
  | nil => exact Nat.le_refl _
  | cons s ss ih =>
    rw [List.map_cons, List.sum_cons, List.filterMap_cons]
    rcases s with ⟨text, hne, hslash, hbracket⟩ | ⟨p, hne, hword⟩
    · simp only [StandardSegment.lack, parameter?]
      omega
    · cases p <;> simp only [StandardSegment.lack, parameter?, List.length_cons] <;> omega

theorem lack_of_plain (h : ss.filterMap parameter? = []) : (ss.map StandardSegment.lack).sum = 0 := by
  induction ss with
  | nil => rfl
  | cons s ss ih =>
    rcases s with ⟨text, hne, hslash, hbracket⟩ | ⟨p, hne, hword⟩
    · rw [List.map_cons, List.sum_cons, ih h]
      rfl
    · cases h

theorem lack_of_optional (hss : CatchAllLast ss)
    (h : (ss.filterMap parameter?).any Parameter.isOptionalCatchAll = true) :
    (ss.map StandardSegment.lack).sum = (ss.filterMap parameter?).length + 2 := by
  induction ss with
  | nil => cases h
  | cons s ss ih =>
    rw [List.map_cons, List.sum_cons, List.filterMap_cons]
    rcases s with ⟨text, hne, hslash, hbracket⟩ | ⟨p, hne, hword⟩
    · have := ih hss.tail h
      simp only [StandardSegment.lack, parameter?]
      omega
    · cases p with
      | single name =>
        have := ih hss.tail h
        simp only [StandardSegment.lack, parameter?, List.length_cons]
        omega
      | catchAll name =>
        obtain rfl := hss.tail_eq_nil rfl
        cases h
      | optionalCatchAll name =>
        obtain rfl := hss.tail_eq_nil rfl
        rfl

/-! ## Among standard patterns -/

def Standard (route : Route) : Prop :=
  ∃ ss page, CatchAllLast ss ∧ route = parseRoute (if ss = [] then [slash] else spellAll ss) page

/-- The path is the root, or an optional catch-all stands right below it, with one more parameter at most. -/
def OutweighsStatic (pathname : Text) (route : Route) : Prop :=
  segments pathname = [] ∨ route.isOptionalCatchAll = true ∧
    (segments route.pattern).length = (segments pathname).length + 1 ∧ route.paramNames.length ≤ 2

theorem parseRoute_spellAll (ss : List StandardSegment) (page : Text) :
    (parseRoute (spellAll ss) page).paramNames = (ss.filterMap parameter?).map Parameter.name ∧
      (parseRoute (spellAll ss) page).isOptionalCatchAll = (ss.filterMap parameter?).any Parameter.isOptionalCatchAll := by
  obtain ⟨hnames, -⟩ := scanParameters_spellAll ss []
  simp only [parseRoute, parameters]
  rw [← hnames, List.map_map, List.any_map]
  exact ⟨rfl, rfl⟩

theorem Standard.cases {route : Route} (h : Standard route) :
    (∃ page, route = parseRoute [slash] page) ∨ ∃ ss page, ss ≠ [] ∧ CatchAllLast ss ∧ route = parseRoute (spellAll ss) page := by
  obtain ⟨ss, page, hss, rfl⟩ := h
  by_cases hne : ss = []
  · exact .inl ⟨page, by rw [if_pos hne]⟩
  · exact .inr ⟨ss, page, hne, hss, by rw [if_neg hne]⟩

section Standard

variable {routes : List Route} {pathname : Text}

theorem Standard.spelled {rival : Route} (h : Standard rival) (hparams : ¬ Static rival) :
    ∃ ts page, ts ≠ [] ∧ CatchAllLast ts ∧ rival = parseRoute (spellAll ts) page := by
  rcases h.cases with ⟨page, rfl⟩ | h
  · exact absurd rfl hparams
  · exact h

theorem outweighs_static {static rival : Route} (hstd : Standard static) (hstatic : Static static) (hpath : static.pattern = pathname)
    (hrival : Standard rival) (hmatches : matchesPath pathname rival) (hparams : ¬ Static rival) :
    (OutweighsStatic pathname rival → Outweighs rival.pattern pathname) ∧
      (¬ OutweighsStatic pathname rival → Outweighs pathname rival.pattern) := by
  obtain ⟨ts, page', hne, hts, rfl⟩ := hrival.spelled hparams
  have hmore : 0 < ts.length := List.length_pos_iff.mpr hne
  obtain ⟨hnames, hoptional⟩ := parseRoute_spellAll ts page'
  have hpattern : (parseRoute (spellAll ts) page').pattern = spellAll ts := rfl
  rw [OutweighsStatic, hoptional, hnames, List.length_map, hpattern, segments_spellAll, List.length_map]
  subst hpath
  rcases hstd.cases with ⟨page, rfl⟩ | ⟨ss, page, hss, -, rfl⟩
  · have hroot : segments (parseRoute [slash] page).pattern = [] ∧ shortfall (parseRoute [slash] page).pattern = 0 :=
      show segments [slash] = [] ∧ shortfall [slash] = 0 by decide
    have hle := lack_le ts
    simp only [Outweighs, hroot.1, hroot.2, shortfall_spellAll, segments_spellAll, List.length_map, List.length_nil, true_or,
      not_true_eq_false, false_implies, and_true, true_implies]
    omega
  · have hplain : ss.filterMap parameter? = [] := by
      rw [Static, (parseRoute_spellAll ss page).1] at hstatic
      exact List.map_eq_nil_iff.mp hstatic
    have hsome : 0 < (ts.filterMap parameter?).length := by
      rw [Static, hnames, List.map_eq_nil_iff] at hparams
      exact List.length_pos_of_ne_nil hparams
    have hslashes := parseRoute_slashes hmatches
    have hself : (parseRoute (spellAll ss) page).pattern = spellAll ss := rfl
    rw [parameters, (scanParameters_spellAll ts []).2, hself, count_slash_spellAll, hoptional, List.count_nil,
      Nat.zero_add] at hslashes
    rw [hself, outweighs_spellAll, outweighs_spellAll, segments_spellAll, List.length_map, lack_of_plain hplain, List.map_eq_nil_iff]
    have hle := parameters_le_lack ts
    rw [← List.length_pos_iff] at hss
    by_cases hopt : (ts.filterMap parameter?).any Parameter.isOptionalCatchAll = true
    · have heq := lack_of_optional hts hopt
      rw [if_pos hopt] at hslashes
      simp only [hopt, true_and, ← List.length_eq_zero_iff]
      omega
    · rw [if_neg hopt] at hslashes
      simp only [hopt, false_and, or_false, Bool.false_eq_true, ← List.length_eq_zero_iff]
      omega

/-- A static route is ahead unless an optional catch-all outweighs it. -/
theorem staticAhead_iff (hparsed : Parsed routes) (hstd : ∀ route ∈ routes, matchesPath pathname route → Standard route) :
    StaticAhead routes pathname ↔ ((∃ route ∈ routes, Static route ∧ route.pattern = pathname) →
      ∀ rival ∈ routes, matchesPath pathname rival → ¬ Static rival → ¬ OutweighsStatic pathname rival) := by
  have hweighs : (∃ route ∈ routes, Static route ∧ route.pattern = pathname) →
      ∀ rival ∈ routes, matchesPath pathname rival → ¬ Static rival →
        (OutweighsStatic pathname rival → Outweighs rival.pattern pathname) ∧
          (¬ OutweighsStatic pathname rival → Outweighs pathname rival.pattern) := by
    rintro ⟨route, hroute, hs, hpath⟩ rival hrival hmatch hparams
    have hmatches := (hparsed.static_iff hroute hs).mpr hpath
    exact outweighs_static (hstd route hroute hmatches) hs hpath (hstd rival hrival hmatch) hmatch hparams
  constructor
  · rintro hahead hstatic rival hrival hmatch hparams hout
    obtain ⟨before, after, rfl⟩ := List.append_of_mem hrival
    exact (hahead hstatic before rival after rfl hparams hmatch).1 ((hweighs hstatic rival hrival hmatch hparams).1 hout)
  · rintro hnone hstatic before rival after rfl hparams hmatch
    have hrival : rival ∈ before ++ rival :: after := List.mem_append_right before List.mem_cons_self
    have hlower := (hweighs hstatic rival hrival hmatch hparams).2 (hnone hstatic rival hrival hmatch hparams)
    rw [Outweighs] at hlower
    exact ⟨fun h => by rw [Outweighs] at h; omega, fun h => by rw [Balances] at h; omega⟩

/-- A catch-all that should yield is the last segment, and the other pattern goes on with a segment that lacks less. -/
theorem catchAllsBehind_of_standard (hstd : ∀ route ∈ routes, matchesPath pathname route → Standard route) :
    CatchAllsBehind routes pathname := by
  rintro before route after rfl hmatch ⟨other, hother, hmatches, hyields⟩
  have hlt : Outweighs other.pattern route.pattern := by
    have hroot : segments [slash] = [] := by decide
    rcases (hstd route (List.mem_append_right before List.mem_cons_self) hmatch).cases with ⟨page, rfl⟩ | ⟨ss, page, -, hss, rfl⟩
    · rw [show (parseRoute [slash] page).pattern = [slash] from rfl, hroot] at hyields
      cases hyields
    · have hself : (parseRoute (spellAll ss) page).pattern = spellAll ss := rfl
      rw [hself, segments_spellAll] at hyields
      rcases (hstd other hother hmatches).cases with ⟨page', rfl⟩ | ⟨ts, page', -, -, rfl⟩
      · rw [show (parseRoute [slash] page').pattern = [slash] from rfl, hroot] at hyields
        cases ss <;> cases hyields
      · have hother : (parseRoute (spellAll ts) page').pattern = spellAll ts := rfl
        rw [hother, segments_spellAll] at hyields
        exact outweighs_of_yieldsTo hss hyields
  rcases List.mem_append.mp hother with ho | ho
  · exact .inl ⟨other, ho, hmatches, .inl hlt⟩
  · rcases List.mem_cons.mp ho with rfl | ho
    · exact absurd hlt (Nat.lt_irrefl _)
    · exact .inr ⟨other, ho, hmatches, hlt⟩

end Standard

namespace PageRouteMatcher

variable (normalize : Text → Text) (sizeOf : Option RouteMatch → Nat)

/-- Static routes win, and catch-alls yield, exactly where the segments and the brackets of the patterns put them in this
order. Among standard patterns a catch-all always yields, and a static route wins unless an optional catch-all right below
the path has one more parameter at most. -/
theorem staticRoutesWin_iff (calls : List Call) (pathname : Text) :
    (StaticRoutesWin (registered calls) (normalizePath normalize pathname)
        ((after normalize sizeOf calls).matchPath normalize sizeOf pathname).2 ↔
      StaticAhead (registered calls) (normalizePath normalize pathname) ∧
        CatchAllsBehind (registered calls) (normalizePath normalize pathname)) ∧
    ((∀ route ∈ registered calls, matchesPath (normalizePath normalize pathname) route → Standard route) →
      (StaticRoutesWin (registered calls) (normalizePath normalize pathname)
          ((after normalize sizeOf calls).matchPath normalize sizeOf pathname).2 ↔
        ((∃ route ∈ registered calls, Static route ∧ route.pattern = normalizePath normalize pathname) →
          ∀ rival ∈ registered calls, matchesPath (normalizePath normalize pathname) rival → ¬ Static rival →
            ¬ OutweighsStatic (normalizePath normalize pathname) rival))) := by
  have hweights := staticRoutesWin_iff_weights normalize sizeOf calls pathname
  refine ⟨hweights, fun hstd => ?_⟩
  rw [hweights, staticAhead_iff (registered_parsed calls) hstd]
  exact and_iff_left (catchAllsBehind_of_standard hstd)

/-- A static route that loses to an optional catch-all below it. -/
theorem optional_catchAll_beats_static :
    ¬ ∀ calls pathname, StaticRoutesWin (registered calls) (normalizePath portableNormalize pathname)
      ((after portableNormalize (fun _ => 0) calls).matchPath portableNormalize (fun _ => 0) pathname).2 := by
  intro hall
  obtain ⟨m, hm, -, -, hroute⟩ :=
    (hall [.addRoute (.of "/a/b") (.of "ab.tsx"), .addRoute (.of "/a/b/[[...rest]]") (.of "rest.tsx")] (.of "/a/b")).static
      ⟨parseRoute (.of "/a/b") (.of "ab.tsx"), by decide, by decide, by decide⟩
  have hfound : ((after portableNormalize (fun _ => 0)
      [.addRoute (.of "/a/b") (.of "ab.tsx"), .addRoute (.of "/a/b/[[...rest]]") (.of "rest.tsx")]).matchPath
        portableNormalize (fun _ => 0) (.of "/a/b")).2.map (·.route.paramNames) = some [.of "rest"] := by
    decide
  rw [hm] at hfound
  rw [Static] at hroute
  rw [Option.map_some, hroute] at hfound
  exact absurd hfound (by decide)

end PageRouteMatcher

end Veryfront.Routing
