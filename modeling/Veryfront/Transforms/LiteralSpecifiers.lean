import Veryfront.Utils.StringLiteral

/-!
# Specifiers in literals

The module loader reads a specifier that is a literal: it looks for the closing quote first, and then decodes what is
between the quotes. In what follows `t` is the source from the cursor on, and `n` how far off the closing quote is.
-/

namespace Veryfront.Transforms

open Lib (unitsOf)

structure SyntaxError where
  message : String
deriving DecidableEq

def invalidEscapedSpecifier {α : Type} : Except SyntaxError α := .error ⟨"Invalid escaped module specifier"⟩

def hexDigitValue (char : Option Nat) : Option Nat := char.bind hexDigit

def decodeHexEscape : (length value : Nat) → Text → Option Nat
  | 0, value, _ => some value
  | length + 1, value, t => do decodeHexEscape length (value * 16 + (← hexDigitValue t.head?)) t.tail

def isLineTerminator (char : Nat) : Bool := char ∈ [cr, lf, 0x2028, 0x2029]

/-- What is appended, and how far the cursor moves. -/
abbrev Append := Except SyntaxError (Text × Nat)

def appendLiteralCharacter (allowLineTerminators : Bool) (char : Nat) (t : Text) : Append :=
  if isLineTerminator char then
    if !allowLineTerminators then invalidEscapedSpecifier
    else if char = cr then .ok ([lf], if t[1]? = some lf then 2 else 1)
    else .ok ([char], 1)
  else .ok ([char], 1)

def bracedDigits : (room value digitCount : Nat) → Text → Except SyntaxError (Nat × Nat)
  | 0, value, digitCount, _ => .ok (value, digitCount)
  | room + 1, value, digitCount, t =>
    if t.head? = some 125 then .ok (value, digitCount)
    else
      match hexDigitValue t.head? with
      | none => invalidEscapedSpecifier
      | some digit => bracedDigits room (value * 16 + digit) (digitCount + 1) t.tail

def appendUnicodeLiteralEscape (n : Nat) (t : Text) : Append :=
  if t[2]? = some 123 then do
    let (value, digitCount) ← bracedDigits (n - 3) 0 0 (t.drop 3)
    if digitCount = 0 ∨ t[3 + digitCount]? ≠ some 125 ∨ value > 0x10FFFF then invalidEscapedSpecifier
    else .ok (unitsOf value, 3 + digitCount + 1)
  else
    match decodeHexEscape 4 0 (t.drop 2) with
    | none => invalidEscapedSpecifier
    | some value => if n < 6 then invalidEscapedSpecifier else .ok (unitsOf value, 6)

def simpleEscapes : List (Nat × Nat) := [(98, 8), (102, 12), (110, 10), (114, 13), (116, 9), (118, 11)]

def appendLiteralEscape (n : Nat) (t : Text) : Append :=
  match t[1]? with
  | none => invalidEscapedSpecifier
  | some escaped =>
    if n ≤ 1 then invalidEscapedSpecifier
    else if isLineTerminator escaped then .ok ([], if escaped = cr ∧ t[2]? = some lf then 3 else 2)
    else
      match simpleEscapes.lookup escaped with
      | some simpleEscape => .ok ([simpleEscape], 2)
      | none =>
        if escaped = 48 then
          if t[2]?.any fun c => 48 ≤ c && c ≤ 57 then invalidEscapedSpecifier else .ok ([0], 2)
        else if 49 ≤ escaped ∧ escaped ≤ 57 then invalidEscapedSpecifier
        else if escaped = 120 then
          match decodeHexEscape 2 0 (t.drop 2) with
          | none => invalidEscapedSpecifier
          | some value => if n < 4 then invalidEscapedSpecifier else .ok (unitsOf value, 4)
        else if escaped = 117 then appendUnicodeLiteralEscape n t
        else .ok ([escaped], 2)

def appendLiteral (allowLineTerminators : Bool) (n : Nat) (t : Text) : Append :=
  match t.head? with
  | none => .ok ([], 1)
  | some char => if char ≠ 92 then appendLiteralCharacter allowLineTerminators char t else appendLiteralEscape n t

/-- Every step moves the cursor, so that `n` of them are enough. -/
def decodeFrom (allowLineTerminators : Bool) : (fuel n : Nat) → Text → Except SyntaxError Text
  | 0, _, _ => .ok []
  | fuel + 1, n, t =>
    if n = 0 then .ok []
    else do
      let (text, moved) ← appendLiteral allowLineTerminators n t
      return text ++ (← decodeFrom allowLineTerminators fuel (n - moved) (t.drop moved))

def decodeLiteralContents (source : Text) (start end_ : Nat) (allowLineTerminators : Bool) : Except SyntaxError Text :=
  decodeFrom allowLineTerminators (end_ - start) (end_ - start) (source.drop start)

def closingQuote (quote : Nat) : Text → Option Nat
  | [] => none
  | [c] => if c ≠ 92 ∧ c = quote then some 0 else none
  | c :: next :: rest =>
    if c = 92 then (closingQuote quote rest).map (· + 2)
    else if c = quote then some 0
    else (closingQuote quote (next :: rest)).map (· + 1)

/-- The same for a template. One with a substitution has none. -/
def closingBacktick : Text → Option Nat
  | [] => none
  | [c] => if c = 96 then some 0 else none
  | c :: next :: rest =>
    if c = 92 then (closingBacktick rest).map (· + 2)
    else if c = 36 ∧ next = 123 then none
    else if c = 96 then some 0
    else (closingBacktick (next :: rest)).map (· + 1)

structure LiteralSpecifier where
  end_ : Nat
  specifier : Text
deriving DecidableEq

def readQuotedSpecifier (source : Text) (quoteIndex : Nat) : Except SyntaxError (Option LiteralSpecifier) :=
  match source[quoteIndex]? with
  | none => .ok none
  | some quote =>
    if quote ≠ 34 ∧ quote ≠ 39 then .ok none
    else
      match (closingQuote quote (source.drop (quoteIndex + 1))).map (quoteIndex + 1 + ·) with
      | none => .ok none
      | some cursor => do
        let specifier ← decodeLiteralContents source (quoteIndex + 1) cursor false
        return some ⟨cursor + 1, specifier⟩

def readLiteralSpecifier (source : Text) (literalIndex : Nat) : Except SyntaxError (Option LiteralSpecifier) :=
  match source[literalIndex]? with
  | none => .ok none
  | some quote =>
    if quote = 34 ∨ quote = 39 then readQuotedSpecifier source literalIndex
    else if quote ≠ 96 then .ok none
    else
      match (closingBacktick (source.drop (literalIndex + 1))).map (literalIndex + 1 + ·) with
      | none => .ok none
      | some cursor => do
        let specifier ← decodeLiteralContents source (literalIndex + 1) cursor true
        return some ⟨cursor + 1, specifier⟩

end Veryfront.Transforms
