import Veryfront.Utils.GlobMatcher

/-!
# What a glob pattern means

The language of a pattern, and that the search accepts a value exactly when it is in it.
-/

namespace Veryfront.Glob

open Computability

/-! ## Languages -/

def segmentCharacter : Language Nat := {x | ∃ c, c ≠ slash ∧ x = [c]}

def slashFree : Language Nat := {x | slash ∉ x}

def directory : Language Nat := {x | ∃ segment, segment ≠ [] ∧ slash ∉ segment ∧ x = segment ++ [slash]}

def anyText : Language Nat := ⊤

def GlobToken.language : GlobToken → Language Nat
  | .literal value => {value}
  | .anySegmentCharacter => segmentCharacter
  | .anySegmentCharacters => slashFree
  | .anyCharacters => anyText
  | .directoryGlobstar => directory∗

def tokensLanguage (tokens : List GlobToken) : Language Nat := (tokens.map GlobToken.language).prod

/-- The pattern is read from left to right. -/
def patternLanguage : Text → Language Nat
  | [] => 1
  | character :: rest =>
    if character = star then
      match rest with
      | second :: rest' =>
        if second = star then
          match rest' with
          | third :: rest'' =>
            if third = slash then directory∗ * patternLanguage rest'' else anyText * patternLanguage (third :: rest'')
          | [] => anyText
        else slashFree * patternLanguage (second :: rest')
      | [] => slashFree
    else if character = question then segmentCharacter * patternLanguage rest
    else {[character]} * patternLanguage rest
termination_by pattern => pattern.length

/-! ## The tokens of a pattern -/

theorem tokensLanguage_append (tokens tokens' : List GlobToken) :
    tokensLanguage (tokens ++ tokens') = tokensLanguage tokens * tokensLanguage tokens' := by
  simp [tokensLanguage]

@[simp] theorem tokensLanguage_nil : tokensLanguage [] = 1 := rfl

@[simp] theorem tokensLanguage_cons (token : GlobToken) (tokens : List GlobToken) :
    tokensLanguage (token :: tokens) = token.language * tokensLanguage tokens := by
  simp [tokensLanguage]

theorem literal_append (value value' : Text) :
    ({value ++ value'} : Language Nat) = ({value} : Language Nat) * ({value'} : Language Nat) := by
  ext x
  simp only [Language.mem_mul]
  constructor
  · rintro rfl
    exact ⟨value, rfl, value', rfl, rfl⟩
  · rintro ⟨_, rfl, _, rfl, rfl⟩
    rfl

theorem tokensLanguage_appendLiteral (tokens : List GlobToken) (value : Text) :
    tokensLanguage (appendLiteral tokens value) = tokensLanguage tokens * {value} := by
  unfold appendLiteral
  split
  · rename_i previous hlast
    obtain ⟨before, rfl⟩ := List.getLast?_eq_some_iff.mp hlast
    simp only [List.dropLast_concat, tokensLanguage_append, tokensLanguage_cons, tokensLanguage_nil, mul_one,
      GlobToken.language, literal_append, mul_assoc]
  · simp [tokensLanguage_append, GlobToken.language]

theorem tokensLanguage_compileFrom (pattern : Text) (tokens : List GlobToken) :
    tokensLanguage (compileFrom pattern tokens) = tokensLanguage tokens * patternLanguage pattern := by
  induction pattern, tokens using compileFrom.induct with
  | case1 tokens => simp [compileFrom, patternLanguage]
  | case2 tokens rest ih =>
    simp [compileFrom, patternLanguage, ih, tokensLanguage_append, GlobToken.language, mul_assoc]
  | case3 tokens third rest hslash ih =>
    unfold compileFrom patternLanguage
    simp [hslash, ih, tokensLanguage_append, GlobToken.language, mul_assoc]
  | case4 tokens => simp [compileFrom, patternLanguage, tokensLanguage_append, GlobToken.language]
  | case5 tokens second rest hstar ih =>
    unfold compileFrom patternLanguage
    simp [hstar, ih, tokensLanguage_append, GlobToken.language, mul_assoc]
  | case6 tokens => simp [compileFrom, patternLanguage, tokensLanguage_append, GlobToken.language]
  | case7 rest tokens hstar ih =>
    unfold compileFrom patternLanguage
    simp [hstar, ih, tokensLanguage_append, GlobToken.language, mul_assoc]
  | case8 character rest tokens hstar hquestion ih =>
    unfold compileFrom patternLanguage
    simp [hstar, hquestion, ih, tokensLanguage_appendLiteral, mul_assoc]

theorem tokensLanguage_compileGlobTokens (pattern : Text) :
    tokensLanguage (compileGlobTokens pattern) = patternLanguage pattern := by
  rw [compileGlobTokens, tokensLanguage_compileFrom, tokensLanguage_nil, one_mul]

/-! ## One character or segment at a time -/

variable {x : Text} {L : Language Nat}

theorem mem_literal_mul {text : Text} : x ∈ ({text} : Language Nat) * L ↔ ∃ rest, x = text ++ rest ∧ rest ∈ L := by
  rw [Language.mem_mul]
  constructor
  · rintro ⟨_, rfl, rest, hrest, rfl⟩
    exact ⟨rest, rfl, hrest⟩
  · rintro ⟨rest, rfl, hrest⟩
    exact ⟨text, rfl, rest, hrest, rfl⟩

theorem mem_segmentCharacter_mul : x ∈ segmentCharacter * L ↔ ∃ c rest, c ≠ slash ∧ x = c :: rest ∧ rest ∈ L := by
  rw [Language.mem_mul]
  constructor
  · rintro ⟨_, ⟨c, hc, rfl⟩, rest, hrest, rfl⟩
    exact ⟨c, rest, hc, rfl, hrest⟩
  · rintro ⟨c, rest, hc, rfl, hrest⟩
    exact ⟨[c], ⟨c, hc, rfl⟩, rest, hrest, rfl⟩

theorem mem_slashFree_mul :
    x ∈ slashFree * L ↔ x ∈ L ∨ ∃ c rest, c ≠ slash ∧ x = c :: rest ∧ rest ∈ slashFree * L := by
  constructor
  · rintro ⟨text, htext, rest, hrest, rfl⟩
    cases text with
    | nil => exact .inl hrest
    | cons c text =>
      have hfree := not_or.mp (fun h => htext (List.mem_cons.mpr h))
      exact .inr ⟨c, text ++ rest, Ne.symm hfree.1, rfl, Language.append_mem_mul hfree.2 hrest⟩
  · rintro (h | ⟨c, rest, hc, rfl, text, htext, rest', hrest', rfl⟩)
    · exact ⟨[], List.not_mem_nil, x, h, rfl⟩
    · exact ⟨c :: text, fun h => (List.mem_cons.mp h).elim (fun heq => hc heq.symm) htext, rest', hrest', rfl⟩

theorem mem_anyText_mul : x ∈ anyText * L ↔ x ∈ L ∨ ∃ c rest, x = c :: rest ∧ rest ∈ anyText * L := by
  constructor
  · rintro ⟨text, -, rest, hrest, rfl⟩
    cases text with
    | nil => exact .inl hrest
    | cons c text => exact .inr ⟨c, text ++ rest, rfl, text, trivial, rest, hrest, rfl⟩
  · rintro (h | ⟨c, rest, rfl, text, -, rest', hrest', rfl⟩)
    · exact ⟨[], trivial, x, h, rfl⟩
    · exact ⟨c :: text, trivial, rest', hrest', rfl⟩

theorem mem_directories_mul :
    x ∈ directory∗ * L ↔ x ∈ L ∨ ∃ segment rest, segment ≠ [] ∧ slash ∉ segment ∧ x = segment ++ slash :: rest ∧
      rest ∈ directory∗ * L := by
  have hunfold : directory∗ * L = L + directory * (directory∗ * L) := by
    conv_lhs => rw [← Language.one_add_self_mul_kstar_eq_kstar directory]
    rw [add_mul, one_mul, mul_assoc]
  rw [hunfold, Language.mem_add, Language.mem_mul]
  refine or_congr_right ⟨?_, ?_⟩
  · rintro ⟨_, ⟨segment, hne, hfree, rfl⟩, rest, hrest, rfl⟩
    exact ⟨segment, rest, hne, hfree, by simp, hunfold ▸ hrest⟩
  · rintro ⟨segment, rest, hne, hfree, rfl, hrest⟩
    exact ⟨segment ++ [slash], ⟨segment, hne, hfree, rfl⟩, rest, hunfold ▸ hrest, by simp⟩

/-! ## Positions of the value -/

variable {value : Text} {valueIndex : Nat}

theorem segmentCharacterAt_iff :
    segmentCharacterAt value valueIndex = true ↔ ∃ c, c ≠ slash ∧ value.drop valueIndex = c :: value.drop (valueIndex + 1) := by
  unfold segmentCharacterAt
  cases hget : value[valueIndex]? with
  | none =>
    have hlen := List.getElem?_eq_none_iff.mp hget
    simp [List.drop_eq_nil_of_le hlen]
  | some c =>
    obtain ⟨hlt, rfl⟩ := List.getElem?_eq_some_iff.mp hget
    have hdrop := List.drop_eq_getElem_cons hlt
    simp only [decide_eq_true_eq]
    constructor
    · intro hc
      exact ⟨_, hc, hdrop⟩
    · rintro ⟨c, hc, heq⟩
      rw [hdrop] at heq
      exact (List.cons.inj heq).1 ▸ hc

theorem lt_length_iff : valueIndex < value.length ↔ ∃ c, value.drop valueIndex = c :: value.drop (valueIndex + 1) := by
  constructor
  · intro hlt
    exact ⟨_, List.drop_eq_getElem_cons hlt⟩
  · rintro ⟨c, hdrop⟩
    by_contra hge
    rw [List.drop_eq_nil_of_le (by omega)] at hdrop
    cases hdrop

theorem nextSlashIndex_iff {slashIndex : Nat} :
    nextSlashIndex value valueIndex = some slashIndex ↔ ∃ segment, slashIndex = valueIndex + segment.length ∧
      slash ∉ segment ∧ value.drop valueIndex = segment ++ slash :: value.drop (slashIndex + 1) := by
  have hnext : ∀ offset, offset < (value.drop valueIndex).length → (value.drop valueIndex)[offset]? = some slash →
      value.drop valueIndex = (value.drop valueIndex).take offset ++ slash :: value.drop (valueIndex + offset + 1) := by
    intro offset hlt hget
    obtain ⟨_, hget⟩ := List.getElem?_eq_some_iff.mp hget
    conv_lhs => rw [← List.take_append_drop offset (value.drop valueIndex), List.drop_eq_getElem_cons hlt, hget,
      List.drop_drop]
    rfl
  unfold nextSlashIndex
  rw [Option.map_eq_some_iff]
  constructor
  · rintro ⟨offset, hfind, rfl⟩
    obtain ⟨hlt, hslash, hbefore⟩ := List.findIdx?_eq_some_iff_getElem.mp hfind
    have hget : (value.drop valueIndex)[offset]? = some slash :=
      List.getElem?_eq_some_iff.mpr ⟨hlt, of_decide_eq_true hslash⟩
    refine ⟨(value.drop valueIndex).take offset, by rw [List.length_take, Nat.min_eq_left hlt.le], ?_, hnext offset hlt hget⟩
    intro hmem
    obtain ⟨i, hi, heq⟩ := List.mem_take_iff_getElem.mp hmem
    exact hbefore i (by omega) (decide_eq_true heq)
  · rintro ⟨segment, rfl, hfree, hdrop⟩
    refine ⟨segment.length, List.findIdx?_eq_some_iff_getElem.mpr ⟨?_, ?_, fun i hi => ?_⟩, rfl⟩
    · rw [hdrop]
      simp
    · simp [hdrop]
    · have hi' : (value.drop valueIndex)[i]? = segment[i]? := by rw [hdrop, List.getElem?_append_left hi]
      rw [List.getElem?_eq_getElem (by rw [hdrop]; simp; omega), List.getElem?_eq_getElem hi] at hi'
      rw [Option.some.inj hi', decide_eq_true_eq]
      exact fun heq => hfree (heq ▸ List.getElem_mem hi)

/-! ## The search decides the language -/

variable {tokens : List GlobToken}

theorem drop_of_getElem? {token : GlobToken} {tokenIndex : Nat} (h : tokens[tokenIndex]? = some token) :
    tokens.drop tokenIndex = token :: tokens.drop (tokenIndex + 1) := by
  obtain ⟨hlt, rfl⟩ := List.getElem?_eq_some_iff.mp h
  exact List.drop_eq_getElem_cons hlt

theorem searchFrom_end {tokenIndex : Nat} (h : tokens[tokenIndex]? = none) :
    searchFrom tokens value tokenIndex valueIndex = decide (valueIndex = value.length) := by
  rw [searchFrom]
  split <;> simp_all

def searchToken (tokens : List GlobToken) (value : Text) (tokenIndex valueIndex : Nat) : GlobToken → Bool
  | .literal text =>
    hasPrefixAt value text valueIndex && searchFrom tokens value (tokenIndex + 1) (valueIndex + text.length)
  | .anySegmentCharacter =>
    segmentCharacterAt value valueIndex && searchFrom tokens value (tokenIndex + 1) (valueIndex + 1)
  | .anySegmentCharacters =>
    searchFrom tokens value (tokenIndex + 1) valueIndex ||
      (segmentCharacterAt value valueIndex && searchFrom tokens value tokenIndex (valueIndex + 1))
  | .anyCharacters =>
    searchFrom tokens value (tokenIndex + 1) valueIndex ||
      (decide (valueIndex < value.length) && searchFrom tokens value tokenIndex (valueIndex + 1))
  | .directoryGlobstar =>
    searchFrom tokens value (tokenIndex + 1) valueIndex ||
      match nextSlashIndex value valueIndex with
      | some slashIndex => decide (valueIndex < slashIndex) && searchFrom tokens value tokenIndex (slashIndex + 1)
      | none => false

theorem searchFrom_token {tokenIndex : Nat} {token : GlobToken} (h : tokens[tokenIndex]? = some token) :
    searchFrom tokens value tokenIndex valueIndex = searchToken tokens value tokenIndex valueIndex token := by
  rw [searchFrom]
  split
  case h_1 =>
    rename_i hnone
    rw [h] at hnone
    cases hnone
  case h_6 =>
    rename_i htoken
    obtain rfl := Option.some.inj (h.symm.trans htoken)
    rw [searchToken]
    congr 1
    split <;> simp_all
  all_goals
    rename_i htoken
    obtain rfl := Option.some.inj (h.symm.trans htoken)
    simp [searchToken]

theorem searchFrom_iff (tokenIndex valueIndex : Nat) (hle : valueIndex ≤ value.length) :
    searchFrom tokens value tokenIndex valueIndex = true ↔
      value.drop valueIndex ∈ tokensLanguage (tokens.drop tokenIndex) := by
  induction tokenIndex, valueIndex using searchFrom.induct tokens value with
  | case1 tokenIndex valueIndex htoken =>
    have hend := List.drop_eq_nil_of_le (List.getElem?_eq_none_iff.mp htoken)
    rw [searchFrom_end htoken, hend, tokensLanguage_nil, Language.mem_one, List.drop_eq_nil_iff, decide_eq_true_eq]
    omega
  | case2 tokenIndex valueIndex text htoken ih =>
    rw [searchFrom_token htoken, searchToken, drop_of_getElem? htoken, tokensLanguage_cons, GlobToken.language, mem_literal_mul,
      Bool.and_eq_true, hasPrefixAt, List.isPrefixOf_iff_prefix]
    constructor
    · rintro ⟨⟨rest, hrest⟩, hsearch⟩
      have hlen := congrArg List.length hrest
      rw [List.length_append, List.length_drop] at hlen
      have hdrop : value.drop (valueIndex + text.length) = rest := by
        rw [← List.drop_drop, ← hrest, List.drop_left]
      exact ⟨rest, hrest.symm, hdrop ▸ (ih (by omega)).mp hsearch⟩
    · rintro ⟨rest, hrest, hmem⟩
      have hlen := congrArg List.length hrest
      rw [List.length_append, List.length_drop] at hlen
      have hdrop : value.drop (valueIndex + text.length) = rest := by
        rw [← List.drop_drop, hrest, List.drop_left]
      exact ⟨⟨rest, hrest.symm⟩, (ih (by omega)).mpr (hdrop ▸ hmem)⟩
  | case3 tokenIndex valueIndex htoken ih =>
    rw [searchFrom_token htoken, searchToken, drop_of_getElem? htoken, tokensLanguage_cons, GlobToken.language, mem_segmentCharacter_mul,
      Bool.and_eq_true, segmentCharacterAt_iff]
    constructor
    · rintro ⟨⟨c, hc, hdrop⟩, hrest⟩
      have hlt := lt_length_iff.mpr ⟨c, hdrop⟩
      exact ⟨c, _, hc, hdrop, (ih hlt).mp hrest⟩
    · rintro ⟨c, rest, hc, hdrop, hmem⟩
      obtain rfl : value.drop (valueIndex + 1) = rest := by rw [← List.drop_drop, hdrop]; rfl
      have hlt := lt_length_iff.mpr ⟨c, hdrop⟩
      exact ⟨⟨c, hc, hdrop⟩, (ih hlt).mpr hmem⟩
  | case4 tokenIndex valueIndex htoken ihskip ihgo =>
    have hlanguage : tokensLanguage (tokens.drop tokenIndex) = slashFree * tokensLanguage (tokens.drop (tokenIndex + 1)) := by
      rw [drop_of_getElem? htoken, tokensLanguage_cons, GlobToken.language]
    rw [searchFrom_token htoken, searchToken, hlanguage, mem_slashFree_mul, ← hlanguage, Bool.or_eq_true, Bool.and_eq_true, ihskip hle]
    refine or_congr_right ⟨?_, ?_⟩
    · rintro ⟨hchar, hgo⟩
      obtain ⟨c, hc, hdrop⟩ := segmentCharacterAt_iff.mp hchar
      exact ⟨c, _, hc, hdrop, (ihgo hchar (lt_length_iff.mpr ⟨c, hdrop⟩)).mp hgo⟩
    · rintro ⟨c, rest, hc, hdrop, hmem⟩
      obtain rfl : value.drop (valueIndex + 1) = rest := by rw [← List.drop_drop, hdrop]; rfl
      have hchar := segmentCharacterAt_iff.mpr ⟨c, hc, hdrop⟩
      exact ⟨hchar, (ihgo hchar (lt_length_iff.mpr ⟨c, hdrop⟩)).mpr hmem⟩
  | case5 tokenIndex valueIndex htoken ihskip ihgo =>
    have hlanguage : tokensLanguage (tokens.drop tokenIndex) = anyText * tokensLanguage (tokens.drop (tokenIndex + 1)) := by
      rw [drop_of_getElem? htoken, tokensLanguage_cons, GlobToken.language]
    rw [searchFrom_token htoken, searchToken, hlanguage, mem_anyText_mul, ← hlanguage, Bool.or_eq_true, Bool.and_eq_true, decide_eq_true_eq, ihskip hle]
    refine or_congr_right ⟨?_, ?_⟩
    · rintro ⟨hlt, hgo⟩
      obtain ⟨c, hdrop⟩ := lt_length_iff.mp hlt
      exact ⟨c, _, hdrop, (ihgo hlt hlt).mp hgo⟩
    · rintro ⟨c, rest, hdrop, hmem⟩
      obtain rfl : value.drop (valueIndex + 1) = rest := by rw [← List.drop_drop, hdrop]; rfl
      have hlt := lt_length_iff.mpr ⟨c, hdrop⟩
      exact ⟨hlt, (ihgo hlt hlt).mpr hmem⟩
  | case6 tokenIndex valueIndex htoken ihskip ihgo =>
    have hlanguage : tokensLanguage (tokens.drop tokenIndex) =
        directory∗ * tokensLanguage (tokens.drop (tokenIndex + 1)) := by
      rw [drop_of_getElem? htoken, tokensLanguage_cons, GlobToken.language]
    rw [searchFrom_token htoken, searchToken, hlanguage, mem_directories_mul, ← hlanguage, ← ihskip hle, Bool.or_eq_true]
    cases hslash : nextSlashIndex value valueIndex with
    | none =>
      refine or_congr_right ⟨nofun, ?_⟩
      rintro ⟨segment, rest, -, hfree, hdrop, -⟩
      have hrest : value.drop (valueIndex + segment.length + 1) = rest := by
        rw [Nat.add_assoc, ← List.drop_drop, hdrop, List.drop_append]
        simp
      rw [← hrest] at hdrop
      rw [nextSlashIndex_iff.mpr ⟨segment, rfl, hfree, hdrop⟩] at hslash
      cases hslash
    | some slashIndex =>
      have hin := lt_of_nextSlashIndex hslash
      refine or_congr_right ⟨?_, ?_⟩
      · intro hgo
        obtain ⟨hlt, hgo⟩ : valueIndex < slashIndex ∧ searchFrom tokens value tokenIndex (slashIndex + 1) = true := by
          simpa using hgo
        obtain ⟨segment, hindex, hfree, hdrop⟩ := nextSlashIndex_iff.mp hslash
        refine ⟨segment, _, ?_, hfree, hdrop, (ihgo slashIndex hslash hlt hin).mp hgo⟩
        rintro rfl
        simp at hindex
        omega
      · rintro ⟨segment, rest, hne, hfree, hdrop, hmem⟩
        have hrest : value.drop (valueIndex + segment.length + 1) = rest := by
          rw [Nat.add_assoc, ← List.drop_drop, hdrop, List.drop_append]
          simp
        rw [← hrest] at hdrop hmem
        have hindex := (nextSlashIndex_iff.mpr ⟨segment, rfl, hfree, hdrop⟩).symm.trans hslash
        obtain rfl := Option.some.inj hindex
        have hlt : valueIndex < valueIndex + segment.length := by
          have := List.length_pos_iff.mpr hne
          omega
        have hgo := (ihgo _ hslash hlt hin).mpr hmem
        exact Bool.and_eq_true_iff.mpr ⟨decide_eq_true hlt, hgo⟩

/-! ## The search with a memory -/

/-- What is remembered is what the search without a memory finds. -/
def Memo.Right (tokens : List GlobToken) (value : Text) (memo : Memo) : Prop :=
  ∀ tokenIndex valueIndex matched, memo.get? (tokenIndex, valueIndex) = some matched →
    matched = searchFrom tokens value tokenIndex valueIndex

theorem Memo.Right.set {memo : Memo} (h : memo.Right tokens value) (tokenIndex valueIndex : Nat) :
    (memo.set (tokenIndex, valueIndex) (searchFrom tokens value tokenIndex valueIndex)).Right tokens value := by
  intro tokenIndex' valueIndex' matched hget
  by_cases heq : (tokenIndex, valueIndex) = (tokenIndex', valueIndex')
  · obtain ⟨rfl, rfl⟩ := Prod.mk.inj heq
    simpa [Memo.get?, Memo.set, eq_comm] using hget
  · refine h tokenIndex' valueIndex' matched ?_
    simpa [Memo.get?, Memo.set, heq] using hget

/-- The answer of the search without a memory, and a memory that is still right. -/
def Answers (tokens : List GlobToken) (value : Text) (expected : Bool) (answer : Bool × Memo) : Prop :=
  answer.1 = expected ∧ answer.2.Right tokens value

def orElse (first : Bool × Memo) (second : Memo → Bool × Memo) : Bool × Memo :=
  let (skipped, memo) := first
  if skipped then (true, memo) else second memo

theorem Answers.orElse {first : Bool × Memo} {expected expected' : Bool} {second : Memo → Bool × Memo}
    (hfirst : Answers tokens value expected first) (hsecond : Answers tokens value expected' (second first.2)) :
    Answers tokens value (expected || expected') (Glob.orElse first second) := by
  obtain ⟨skipped, memo⟩ := first
  obtain ⟨rfl, hmemo⟩ := hfirst
  cases skipped with
  | true => exact ⟨rfl, hmemo⟩
  | false => exact hsecond

theorem Answers.guarded {p : Prop} [Decidable p] {check expected : Bool} {memo : Memo} {second : Bool × Memo}
    (hcheck : p ↔ check = true) (hmemo : memo.Right tokens value) (hsecond : p → Answers tokens value expected second) :
    Answers tokens value (check && expected) (if p then second else (false, memo)) := by
  by_cases h : p
  · rw [hcheck.mp h, Bool.true_and, if_pos h]
    exact hsecond h
  · rw [Bool.eq_false_of_not_eq_true (mt hcheck.mpr h), if_neg h]
    exact ⟨rfl, hmemo⟩

def matchToken (tokens : List GlobToken) (value : Text) (tokenIndex valueIndex : Nat) (memo : Memo) :
    GlobToken → Bool × Memo
  | .literal text =>
    if hasPrefixAt value text valueIndex then matchesFrom tokens value (tokenIndex + 1) (valueIndex + text.length) memo
    else (false, memo)
  | .anySegmentCharacter =>
    if segmentCharacterAt value valueIndex then matchesFrom tokens value (tokenIndex + 1) (valueIndex + 1) memo
    else (false, memo)
  | .anySegmentCharacters =>
    orElse (matchesFrom tokens value (tokenIndex + 1) valueIndex memo) fun memo =>
      if segmentCharacterAt value valueIndex then matchesFrom tokens value tokenIndex (valueIndex + 1) memo
      else (false, memo)
  | .anyCharacters =>
    orElse (matchesFrom tokens value (tokenIndex + 1) valueIndex memo) fun memo =>
      if valueIndex < value.length then matchesFrom tokens value tokenIndex (valueIndex + 1) memo else (false, memo)
  | .directoryGlobstar =>
    orElse (matchesFrom tokens value (tokenIndex + 1) valueIndex memo) fun memo =>
      match nextSlashIndex value valueIndex with
      | some slashIndex =>
        if valueIndex < slashIndex then matchesFrom tokens value tokenIndex (slashIndex + 1) memo else (false, memo)
      | none => (false, memo)

variable {memo : Memo} {tokenIndex : Nat}

theorem matchesFrom_end (h : tokens[tokenIndex]? = none) (hnew : memo.get? (tokenIndex, valueIndex) = none) :
    matchesFrom tokens value tokenIndex valueIndex memo =
      (decide (valueIndex = value.length), memo.set (tokenIndex, valueIndex) (decide (valueIndex = value.length))) := by
  rw [matchesFrom, hnew]
  dsimp only
  split
  case h_1 => rfl
  all_goals
    rename_i hsome
    rw [h] at hsome
    cases hsome

theorem matchesFrom_token {token : GlobToken} (h : tokens[tokenIndex]? = some token)
    (hnew : memo.get? (tokenIndex, valueIndex) = none) :
    matchesFrom tokens value tokenIndex valueIndex memo =
      ((matchToken tokens value tokenIndex valueIndex memo token).1,
        (matchToken tokens value tokenIndex valueIndex memo token).2.set (tokenIndex, valueIndex)
          (matchToken tokens value tokenIndex valueIndex memo token).1) := by
  have hmatch : ∀ answer : Bool × Memo, answer = matchToken tokens value tokenIndex valueIndex memo token →
      (answer.1, answer.2.set (tokenIndex, valueIndex) answer.1) =
        ((matchToken tokens value tokenIndex valueIndex memo token).1,
          (matchToken tokens value tokenIndex valueIndex memo token).2.set (tokenIndex, valueIndex)
            (matchToken tokens value tokenIndex valueIndex memo token).1) := by
    rintro _ rfl
    rfl
  rw [matchesFrom, hnew]
  refine hmatch _ ?_
  split
  case h_1 =>
    rename_i hnone
    rw [h] at hnone
    cases hnone
  case h_6 =>
    rename_i htoken
    obtain rfl := Option.some.inj (h.symm.trans htoken)
    rw [matchToken, orElse]
    simp only [dite_eq_ite]
    congr 1
    split <;> simp_all
  all_goals
    rename_i htoken
    obtain rfl := Option.some.inj (h.symm.trans htoken)
    simp only [matchToken, orElse, dite_eq_ite]

theorem answers_matchesFrom (tokenIndex valueIndex : Nat) (memo : Memo) (hmemo : memo.Right tokens value) :
    Answers tokens value (searchFrom tokens value tokenIndex valueIndex)
      (matchesFrom tokens value tokenIndex valueIndex memo) := by
  have hsettle : ∀ {tokenIndex valueIndex token} {memo : Memo}, tokens[tokenIndex]? = some token →
      memo.Right tokens value →
      Answers tokens value (searchFrom tokens value tokenIndex valueIndex)
        (matchToken tokens value tokenIndex valueIndex memo token) →
      Answers tokens value (searchFrom tokens value tokenIndex valueIndex)
        (matchesFrom tokens value tokenIndex valueIndex memo) := by
    rintro tokenIndex valueIndex token memo htoken hmemo ⟨hmatched, hright⟩
    cases hget : memo.get? (tokenIndex, valueIndex) with
    | some cached =>
      rw [matchesFrom, hget]
      exact ⟨hmemo _ _ _ hget, hmemo⟩
    | none =>
      rw [matchesFrom_token htoken hget, hmatched]
      exact ⟨rfl, hright.set tokenIndex valueIndex⟩
  induction tokenIndex, valueIndex using searchFrom.induct tokens value generalizing memo with
  | case1 tokenIndex valueIndex htoken =>
    cases hget : memo.get? (tokenIndex, valueIndex) with
    | some cached =>
      rw [matchesFrom, hget]
      exact ⟨hmemo _ _ _ hget, hmemo⟩
    | none =>
      rw [matchesFrom_end htoken hget, ← searchFrom_end htoken]
      exact ⟨rfl, hmemo.set tokenIndex valueIndex⟩
  | case2 tokenIndex valueIndex text htoken ih =>
    refine hsettle htoken hmemo ?_
    rw [searchFrom_token htoken, searchToken, matchToken]
    exact Answers.guarded Iff.rfl hmemo fun _ => ih memo hmemo
  | case3 tokenIndex valueIndex htoken ih =>
    refine hsettle htoken hmemo ?_
    rw [searchFrom_token htoken, searchToken, matchToken]
    exact Answers.guarded Iff.rfl hmemo fun _ => ih memo hmemo
  | case4 tokenIndex valueIndex htoken ihskip ihgo =>
    refine hsettle htoken hmemo ?_
    have hskip := ihskip memo hmemo
    rw [searchFrom_token htoken, searchToken, matchToken]
    exact hskip.orElse (Answers.guarded Iff.rfl hskip.2 fun hchar => ihgo hchar _ hskip.2)
  | case5 tokenIndex valueIndex htoken ihskip ihgo =>
    refine hsettle htoken hmemo ?_
    have hskip := ihskip memo hmemo
    rw [searchFrom_token htoken, searchToken, matchToken]
    exact hskip.orElse (Answers.guarded decide_eq_true_iff.symm hskip.2 fun hlt => ihgo hlt _ hskip.2)
  | case6 tokenIndex valueIndex htoken ihskip ihgo =>
    refine hsettle htoken hmemo ?_
    have hskip := ihskip memo hmemo
    rw [searchFrom_token htoken, searchToken, matchToken]
    refine hskip.orElse ?_
    cases hslash : nextSlashIndex value valueIndex with
    | none => exact ⟨rfl, hskip.2⟩
    | some slashIndex => exact Answers.guarded decide_eq_true_iff.symm hskip.2 fun hlt => ihgo slashIndex hslash hlt _ hskip.2

/-- A pattern matches exactly the values of its language, and what the search remembers does not
change what it finds. -/
theorem globMatches_iff_mem_patternLanguage (pattern value : Text) :
    (globMatches pattern value = true ↔ value ∈ patternLanguage pattern) ∧
      globMatches pattern value = searchFrom (compileGlobTokens pattern) value 0 0 := by
  have hanswers : Answers (compileGlobTokens pattern) value _ _ := answers_matchesFrom 0 0 [] (by intro _ _ _ h; cases h)
  have hsearch : globMatches pattern value = searchFrom (compileGlobTokens pattern) value 0 0 := hanswers.1
  refine ⟨?_, hsearch⟩
  rw [hsearch, searchFrom_iff 0 0 (Nat.zero_le _), List.drop_zero, List.drop_zero, tokensLanguage_compileGlobTokens]

end Veryfront.Glob
