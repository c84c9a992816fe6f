import Veryfront.Agent.Streaming.Types

/-!
# Tool input text

The input of a tool call arrives as deltas, as a final value, or both. Some providers send an empty
object first and the input after it, some send the whole text again with every delta. The merges
below undo that.
-/

namespace Veryfront.Agent.Streaming

/-- `JSON.parse` and `JSON.stringify`; `none` when they throw. -/
structure JsonCodec where
  parse : JsText → Option JsValue
  stringify : JsValue → Option JsText

/-! ## Texts -/

/-- What `trim` takes off: white space and line terminators. -/
def isTrimmed (u : UInt16) : Bool :=
  (9 ≤ u && u ≤ 13) || u = 32 || u = 160 || u = 0x1680 || (0x2000 ≤ u && u ≤ 0x200A) ||
    u = 0x2028 || u = 0x2029 || u = 0x202F || u = 0x205F || u = 0x3000 || u = 0xFEFF

def trimStart (text : JsText) : JsText := text.dropWhile isTrimmed

def trimEnd (text : JsText) : JsText := (text.reverse.dropWhile isTrimmed).reverse

def trim (text : JsText) : JsText := trimEnd (trimStart text)

def openBrace : UInt16 := 123
def closeBrace : UInt16 := 125
def quote : UInt16 := 34

def emptyObject : JsText := [openBrace, closeBrace]

/-! ## Placeholders -/

/-- One `{}` in front of another object, or of the first key of one, is dropped per round; every
round shortens the text. -/
def stripRounds : Nat → JsText → JsText
  | 0, text => text
  | rounds + 1, text =>
    if emptyObject.isPrefixOf text then
      match trimStart (text.drop 2) with
      | [] => text
      | u :: rest =>
        if u = openBrace then stripRounds rounds (u :: rest)
        else if u = quote then stripRounds rounds (openBrace :: u :: rest)
        else text
    else text

def stripLeadingEmptyObjectPlaceholder (rawArgs : JsText) : JsText :=
  stripRounds (trim rawArgs).length (trim rawArgs)

def isBareEmptyObjectPlaceholder (inputText : JsText) : Bool :=
  let stripped := stripLeadingEmptyObjectPlaceholder inputText
  stripped = [] || stripped = emptyObject

/-! ## Merges -/

def MIN_OVERLAP_DEDUP_LENGTH : Nat := 4

/-- The longest overlap of the end of `current` with the start of `candidate`, from `overlap` down. -/
def mergeOverlap (current candidate : JsText) : Nat → Option JsText
  | 0 => none
  | overlap + 1 =>
    if overlap + 1 < MIN_OVERLAP_DEDUP_LENGTH then none
    else if (candidate.take (overlap + 1)).isSuffixOf current then some (current ++ candidate.drop (overlap + 1))
    else mergeOverlap current candidate overlap

def mergeCandidate (current candidate : JsText) : Option JsText :=
  if candidate = current then some current
  else if current.isPrefixOf candidate then some candidate
  else mergeOverlap current candidate (min current.length candidate.length)

def mergeToolInputDelta (currentArguments nextDelta : JsText) : JsText :=
  let normalizedDelta := trimStart nextDelta
  let candidateDeltas :=
    if [quote].isPrefixOf normalizedDelta then [normalizedDelta, openBrace :: normalizedDelta]
    else [normalizedDelta]
  let reopened :=
    if currentArguments = emptyObject || currentArguments = [] then
      candidateDeltas.find? fun candidate => [openBrace].isPrefixOf candidate
    else none
  match reopened with
  | some candidate => candidate
  | none =>
    if nextDelta = [] then currentArguments
    else if currentArguments = [] then nextDelta
    else if nextDelta.length < MIN_OVERLAP_DEDUP_LENGTH then currentArguments ++ nextDelta
    else (candidateDeltas.findSome? (mergeCandidate currentArguments)).getD (currentArguments ++ nextDelta)

variable (json : JsonCodec)

def isCompleteJsonObject (text : JsText) : Bool := (json.parse text).any JsValue.isRecord

/-- An object with a stray `""` behind it. -/
def isDoubleClosedObject (text : JsText) : Bool :=
  let normalized := trim text
  [quote, quote].isSuffixOf normalized &&
    isCompleteJsonObject json (trim (normalized.take (normalized.length - 2)))

def mergeToolCallInput (currentArguments nextInput : JsText) : JsText :=
  if currentArguments = [] then nextInput
  else
    let normalizedCurrent := stripLeadingEmptyObjectPlaceholder currentArguments
    if trim nextInput = emptyObject ∧ [openBrace].isPrefixOf (trim currentArguments) then
      if isDoubleClosedObject json currentArguments then nextInput else currentArguments
    else if trim nextInput = emptyObject ∧ [openBrace].isPrefixOf (trim normalizedCurrent) then
      normalizedCurrent
    else nextInput

/-! ## Parsing -/

def parseToolInputText (text : JsText) : Except RejectionReason JsValue :=
  let normalized := stripLeadingEmptyObjectPlaceholder text
  if normalized = [] then .error .invalid
  else match json.parse normalized with
    | none => .error .malformed
    | some parsed => if parsed.isRecord then .ok parsed else .error .invalid

def parseCanonicalToolInput : JsValue → Except RejectionReason JsValue
  | .object fields => .ok (.object fields)
  | .string text => parseToolInputText json text
  | _ => .error .invalid

def serializeToolInput (input : JsValue) : Option JsText :=
  json.stringify (match input with
    | .undefined => .null
    | input => input)

end Veryfront.Agent.Streaming
