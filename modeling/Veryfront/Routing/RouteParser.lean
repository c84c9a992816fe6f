import Veryfront.Utils.Text
import Mathlib.Algebra.BigOperators.Group.List.Basic
import Mathlib.Algebra.GroupWithZero.Nat

/-!
# Route patterns

The parameters of a pattern stand in brackets. What is between them is literal text. A route keeps the regular
expression of its pattern, one capture group for each parameter, anchored at both ends.
-/

namespace Veryfront.Routing

def slash : Nat := 47

/-- Letters, digits and the underscore. -/
def isWord (c : Nat) : Bool := (48 ≤ c && c ≤ 57) || (65 ≤ c && c ≤ 90) || c = 95 || (97 ≤ c && c ≤ 122)

/-! ## Parameters -/

inductive Parameter
  | optionalCatchAll (name : Text)
  | catchAll (name : Text)
  | single (name : Text)
deriving DecidableEq

namespace Parameter

def name : Parameter → Text
  | optionalCatchAll name | catchAll name | single name => name

/-- As the pattern spells it. -/
def matchedText : Parameter → Text
  | optionalCatchAll name => .of "[[..." ++ name ++ .of "]]"
  | catchAll name => .of "[..." ++ name ++ .of "]"
  | single name => .of "[" ++ name ++ .of "]"

def isCatchAll : Parameter → Bool
  | single _ => false
  | _ => true

def isOptionalCatchAll : Parameter → Bool
  | optionalCatchAll _ => true
  | _ => false

end Parameter

/-- The word between the two texts, at the start of `t`. -/
def bracketed (opening closing : String) (t : Text) : Option Text :=
  let body := t.drop (Text.of opening).length
  let name := body.takeWhile isWord
  if t.startsWith opening ∧ name ≠ [] ∧ Text.startsWith (body.drop name.length) closing then some name else none

/-- The alternatives are tried in this order. -/
def parameterAt (t : Text) : Option Parameter :=
  (bracketed "[[..." "]]" t).map .optionalCatchAll <|> (bracketed "[..." "]" t).map .catchAll <|>
    (bracketed "[" "]" t).map .single

/-- The parameters, each after its literal text, and the text after the last one. `skip` is what remains of a
parameter, `literal` is the text since then, last unit first. -/
def scanParameters : (skip : Nat) → (literal : Text) → Text → List (Text × Parameter) × Text
  | _, literal, [] => ([], literal.reverse)
  | skip + 1, literal, _ :: rest => scanParameters skip literal rest
  | 0, literal, c :: rest =>
    match parameterAt (c :: rest) with
    | some parameter =>
      let (parameters, tail) := scanParameters (parameter.matchedText.length - 1) [] rest
      ((literal.reverse, parameter) :: parameters, tail)
    | none => scanParameters 0 (c :: literal) rest

def parameters (pattern : Text) : List (Text × Parameter) × Text := scanParameters 0 [] pattern

/-! ## The regular expression -/

inductive RegexPart
  /-- Escaped, so it stands for itself. -/
  | literal (text : Text)
  /-- `([^/]+)` -/
  | segment
  /-- `(.+)` -/
  | some
  /-- `(.*)` -/
  | any
  /-- `(?:/(.*))?` -/
  | optionalTail
deriving DecidableEq

def parameterParts (literal : Text) (parameter : Parameter) (isLast : Bool) : List RegexPart :=
  match parameter with
  | .optionalCatchAll _ =>
    if isLast && literal.endsWith "/" then [.literal literal.dropLast, .optionalTail] else [.literal literal, .any]
  | .catchAll _ => [.literal literal, .some]
  | .single _ => [.literal literal, .segment]

def regexParts : List (Text × Parameter) → Text → List RegexPart
  | [], tail => [.literal tail]
  | (literal, parameter) :: parameters, tail =>
    parameterParts literal parameter (parameters.isEmpty && tail.isEmpty) ++ regexParts parameters tail

structure Route where
  pattern : Text
  page : Text
  regex : List RegexPart
  paramNames : List Text
  isCatchAll : Bool
  isOptionalCatchAll : Bool
deriving DecidableEq

def parseRoute (pattern page : Text) : Route :=
  let (parameters, tail) := parameters pattern
  { pattern
    page
    regex := regexParts parameters tail
    paramNames := parameters.map fun p => p.2.name
    isCatchAll := parameters.any fun p => p.2.isCatchAll
    isOptionalCatchAll := parameters.any fun p => p.2.isOptionalCatchAll }

/-! ## Specificity -/

/-- Segment patterns ordered from lowest to highest priority. -/
def segmentPatterns : List (String × Nat) := [("[[...", 1), ("[...", 2), ("[", 3)]

def getSegmentScore (segment : Text) : Nat :=
  ((segmentPatterns.find? fun p => Text.includes segment p.1).map Prod.snd).getD 4

def segments (pattern : Text) : List Text := (pattern.splitOn slash).filter (· ≠ [])

/-- In tenths, of which each segment adds one as a bonus. -/
def getSpecificityScore (route : Route) : Nat :=
  10 * ((segments route.pattern).map getSegmentScore).sum + (segments route.pattern).length

end Veryfront.Routing
