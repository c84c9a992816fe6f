import Veryfront.Routing.RouteMatcher

/-!
# Matching segment by segment

Beside the regular expression there are two walkers over the segments of a pattern and of a slug. The one of the route
path utilities reads a segment by the public grammar of parameters, the one of the slug mapper by its first and last
characters. The walk is the same.
-/

namespace Veryfront.Routing

open Lib

/-! ## The grammar of a parameter segment -/

def containsPathControlCharacters (value : Text) : Bool := value.any fun c => c ≤ 0x1f || (0x7f ≤ c && c ≤ 0x9f)

inductive RouteParameterKind
  | dynamic
  | catchAll
  | optionalCatchAll
deriving DecidableEq

structure ParsedRouteParameter where
  name : Text
  kind : RouteParameterKind
  suffix : Text
deriving DecidableEq

/-- Words and hyphens, with dots between them. -/
def isValidParameterName (name : Text) : Bool :=
  (name.splitOn 46).all fun piece => piece ≠ [] && piece.all fun c => isWord c || c = 45

/-- In any case. -/
def isRouteParameterFileSuffix (suffix : Text) : Bool :=
  suffix.map (fun c => if 65 ≤ c ∧ c ≤ 90 then c + 32 else c) ∈
    [Text.of ".tsx", .of ".jsx", .of ".ts", .of ".js", .of ".mdx", .of ".md"]

def parseRouteParameterSegment (segment : Text) : Option ParsedRouteParameter :=
  if ¬ segment.startsWith "[" ∨ containsPathControlCharacters segment then none
  else
    let (marker, kind, closing) : String × RouteParameterKind × String :=
      if segment.startsWith "[[..." then ("[[...", .optionalCatchAll, "]]")
      else if segment.startsWith "[..." then ("[...", .catchAll, "]")
      else ("[", .dynamic, "]")
    match splitAtFirst (.of closing) (segment.drop (Text.of marker).length) with
    | none => none
    | some (name, suffix) =>
      if ¬ isValidParameterName name then none
      else if suffix ≠ [] ∧ ¬ isRouteParameterFileSuffix suffix then none
      else some { name, kind, suffix }

def isDynamicSegment (name : Text) : Bool := (parseRouteParameterSegment name).isSome

def isCatchAllParameter (name : Text) : Bool :=
  match parseRouteParameterSegment name with
  | some parameter => parameter.kind = .catchAll || parameter.kind = .optionalCatchAll
  | none => false

def extractParamName (segment : Text) : Text :=
  match parseRouteParameterSegment segment with
  | some parameter => parameter.name
  | none => segment

/-! ## The walk -/

/-- What a walker takes for a parameter, and how it stores one. -/
structure Walker where
  isCatchAll : Text → Bool
  catchAllName : Text → Text
  isDynamic : Text → Bool
  dynamicName : Text → Text
  set : OrdMap Text ParamValue → Text → ParamValue → OrdMap Text ParamValue

namespace Walker

variable (walker : Walker)

/-- `slugParts` is what remains of the slug. -/
def walk : List Text → List Text → OrdMap Text ParamValue → Option (OrdMap Text ParamValue)
  | [], slugParts, params => if slugParts ≠ [] then none else some params
  | patternPart :: patternParts, slugParts, params =>
    if walker.isCatchAll patternPart then
      some (walker.set params (walker.catchAllName patternPart) (.many slugParts))
    else if walker.isDynamic patternPart then
      match slugParts with
      | [] => none
      | slugPart :: slugParts =>
        walk patternParts slugParts (walker.set params (walker.dynamicName patternPart) (.one slugPart))
    else
      match slugParts with
      | [] => none
      | slugPart :: slugParts => if slugPart ≠ patternPart then none else walk patternParts slugParts params

def extract (pattern slug : Text) : Option (OrdMap Text ParamValue) :=
  let patternParts := segments pattern
  let slugParts := segments slug
  if ¬ patternParts.any walker.isCatchAll ∧ patternParts.length ≠ slugParts.length then none
  else walker.walk patternParts slugParts .empty

end Walker

/-- The object for the parameters has no prototype. -/
def patternWalker : Walker where
  isCatchAll := isCatchAllParameter
  catchAllName := extractParamName
  isDynamic := isDynamicSegment
  dynamicName := extractParamName
  set := OrdMap.set

def extractParamsFromPattern (pattern slug : Text) : Option (OrdMap Text ParamValue) := patternWalker.extract pattern slug

/-! ## The walker of the slug mapper -/

def isOptionalSpreadParam (part : Text) : Bool := part.startsWith "[[..." && part.endsWith "]]"

def isSpreadParam (part : Text) : Bool := isOptionalSpreadParam part || (part.startsWith "[..." && part.endsWith "]")

def isDynamicParam (part : Text) : Bool := part.startsWith "[" && part.endsWith "]"

def spreadParamName (part : Text) : Text :=
  if isOptionalSpreadParam part then (part.take (part.length - 2)).drop 5 else (part.take (part.length - 1)).drop 4

def slugWalker : Walker where
  isCatchAll := isSpreadParam
  catchAllName := spreadParamName
  isDynamic := isDynamicParam
  dynamicName part := (part.take (part.length - 1)).drop 1
  set := setProperty

def extractParams (pattern slug : Text) : Option (OrdMap Text ParamValue) := slugWalker.extract pattern slug

end Veryfront.Routing
