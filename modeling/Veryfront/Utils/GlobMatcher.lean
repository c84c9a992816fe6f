import Mathlib.Computability.Language
import Veryfront.Utils.Text

/-!
# Glob patterns

A pattern is compiled to tokens, and a value is matched by a search over positions of both that remembers what it found.
The language of a pattern is the concatenation of the languages of its tokens; the search decides it.
-/

namespace Veryfront.Glob

def slash : Nat := 47

def star : Nat := 42

def question : Nat := 63

/-! ## Tokens -/

inductive GlobToken
  | literal (value : Text)
  | anySegmentCharacter
  | anySegmentCharacters
  | anyCharacters
  | directoryGlobstar
deriving DecidableEq

def appendLiteral (tokens : List GlobToken) (value : Text) : List GlobToken :=
  match tokens.getLast? with
  | some (.literal previous) => tokens.dropLast ++ [.literal (previous ++ value)]
  | _ => tokens ++ [.literal value]

/-- What is left of the pattern, and the tokens so far. -/
def compileFrom : Text → List GlobToken → List GlobToken
  | [], tokens => tokens
  | character :: rest, tokens =>
    if character = star then
      match rest with
      | second :: rest' =>
        if second = star then
          match rest' with
          | third :: rest'' =>
            if third = slash then compileFrom rest'' (tokens ++ [.directoryGlobstar])
            else compileFrom (third :: rest'') (tokens ++ [.anyCharacters])
          | [] => tokens ++ [.anyCharacters]
        else compileFrom (second :: rest') (tokens ++ [.anySegmentCharacters])
      | [] => tokens ++ [.anySegmentCharacters]
    else if character = question then compileFrom rest (tokens ++ [.anySegmentCharacter])
    else compileFrom rest (appendLiteral tokens [character])
termination_by pattern => pattern.length

def compileGlobTokens (pattern : Text) : List GlobToken := compileFrom pattern []

/-! ## The search -/

section Search

variable (tokens : List GlobToken) (value : Text)

/-- The first slash at `start` or after it. -/
def nextSlashIndex (start : Nat) : Option Nat := ((value.drop start).findIdx? (· = slash)).map (start + ·)

def hasPrefixAt (text : Text) (position : Nat) : Bool := text.isPrefixOf (value.drop position)

def segmentCharacterAt (index : Nat) : Bool :=
  match value[index]? with
  | some character => character ≠ slash
  | none => false

/-- What the search has found for a token index and a value index. -/
abbrev Memo := List ((Nat × Nat) × Bool)

def Memo.get? (memo : Memo) (key : Nat × Nat) : Option Bool := (memo.find? fun e => e.1 = key).map Prod.snd

def Memo.set (memo : Memo) (key : Nat × Nat) (matched : Bool) : Memo := (key, matched) :: memo

theorem lt_of_segmentCharacterAt {value : Text} {index : Nat} (h : segmentCharacterAt value index = true) :
    index < value.length := by
  unfold segmentCharacterAt at h
  split at h
  · rename_i hsome
    exact (List.getElem?_eq_some_iff.mp hsome).1
  · cases h

theorem lt_of_nextSlashIndex {value : Text} {start index : Nat} (h : nextSlashIndex value start = some index) :
    index < value.length := by
  obtain ⟨offset, hfind, rfl⟩ := Option.map_eq_some_iff.mp h
  have hlt := (List.findIdx?_eq_some_iff_getElem.mp hfind).1
  rw [List.length_drop] at hlt
  omega

/-- The search without a memory. -/
def searchFrom (tokenIndex valueIndex : Nat) : Bool :=
  match htoken : tokens[tokenIndex]? with
  | none => valueIndex = value.length
  | some (.literal text) => hasPrefixAt value text valueIndex && searchFrom (tokenIndex + 1) (valueIndex + text.length)
  | some .anySegmentCharacter => segmentCharacterAt value valueIndex && searchFrom (tokenIndex + 1) (valueIndex + 1)
  | some .anySegmentCharacters =>
    searchFrom (tokenIndex + 1) valueIndex ||
      if hchar : segmentCharacterAt value valueIndex then searchFrom tokenIndex (valueIndex + 1) else false
  | some .anyCharacters =>
    searchFrom (tokenIndex + 1) valueIndex ||
      if hchar : valueIndex < value.length then searchFrom tokenIndex (valueIndex + 1) else false
  | some .directoryGlobstar =>
    searchFrom (tokenIndex + 1) valueIndex ||
      match hslash : nextSlashIndex value valueIndex with
      | some slashIndex => if hlt : valueIndex < slashIndex then searchFrom tokenIndex (slashIndex + 1) else false
      | none => false
termination_by (tokens.length - tokenIndex, value.length - valueIndex)
decreasing_by
  all_goals
    have hin := (List.getElem?_eq_some_iff.mp htoken).1
    first
    | exact Prod.Lex.left _ _ (by omega)
    | exact Prod.Lex.right _ (by have := lt_of_segmentCharacterAt hchar; omega)
    | exact Prod.Lex.right _ (by omega)
    | exact Prod.Lex.right _ (by have := lt_of_nextSlashIndex hslash; omega)

/-- Looks up what is known before it searches, and remembers what it finds. -/
def matchesFrom (tokenIndex valueIndex : Nat) (memo : Memo) : Bool × Memo :=
  match memo.get? (tokenIndex, valueIndex) with
  | some cached => (cached, memo)
  | none =>
    let (matched, memo) : Bool × Memo :=
      match htoken : tokens[tokenIndex]? with
      | none => (valueIndex = value.length, memo)
      | some (.literal text) =>
        if hasPrefixAt value text valueIndex then matchesFrom (tokenIndex + 1) (valueIndex + text.length) memo
        else (false, memo)
      | some .anySegmentCharacter =>
        if segmentCharacterAt value valueIndex then matchesFrom (tokenIndex + 1) (valueIndex + 1) memo else (false, memo)
      | some .anySegmentCharacters =>
        let (skipped, memo) := matchesFrom (tokenIndex + 1) valueIndex memo
        if skipped then (true, memo)
        else if hchar : segmentCharacterAt value valueIndex then matchesFrom tokenIndex (valueIndex + 1) memo
        else (false, memo)
      | some .anyCharacters =>
        let (skipped, memo) := matchesFrom (tokenIndex + 1) valueIndex memo
        if skipped then (true, memo)
        else if hchar : valueIndex < value.length then matchesFrom tokenIndex (valueIndex + 1) memo
        else (false, memo)
      | some .directoryGlobstar =>
        let (skipped, memo) := matchesFrom (tokenIndex + 1) valueIndex memo
        if skipped then (true, memo)
        else
          match hslash : nextSlashIndex value valueIndex with
          | some slashIndex =>
            if hlt : valueIndex < slashIndex then matchesFrom tokenIndex (slashIndex + 1) memo else (false, memo)
          | none => (false, memo)
    (matched, memo.set (tokenIndex, valueIndex) matched)
termination_by (tokens.length - tokenIndex, value.length - valueIndex)
decreasing_by
  all_goals
    have hin := (List.getElem?_eq_some_iff.mp htoken).1
    first
    | exact Prod.Lex.left _ _ (by omega)
    | exact Prod.Lex.right _ (by have := lt_of_segmentCharacterAt hchar; omega)
    | exact Prod.Lex.right _ (by omega)
    | exact Prod.Lex.right _ (by have := lt_of_nextSlashIndex hslash; omega)

end Search

def globMatches (pattern value : Text) : Bool := (matchesFrom (compileGlobTokens pattern) value 0 0 []).1

end Veryfront.Glob
