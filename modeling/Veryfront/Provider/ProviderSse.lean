import Veryfront.Lib.Split
import Veryfront.Utils.Text

/-!
# Parsing a provider's event stream

A stream arrives in chunks. What follows the last complete block of a chunk is kept and put before the next one,
and at the end the rest is parsed as if a blank line followed. A block ends where two line ends follow each
other, each of them a CRLF, a CR or an LF, tried in this order.
-/

namespace Veryfront.Provider

open Lib

def maxProviderSseBufferCodeUnits : Nat := 8 * 1024 * 1024

/-- Only the malformed JSON is a syntax error, the others are range errors. -/
inductive SseError
  | bufferExceeded (maximumCodeUnits : Nat)
  | remainderExceeded
  | malformedJson
deriving DecidableEq

def SseError.message : SseError → String
  | .bufferExceeded maximumCodeUnits => "Provider SSE buffer exceeded " ++ toString maximumCodeUnits ++ " code units"
  | .remainderExceeded =>
    "Provider SSE remainder exceeded " ++ toString maxProviderSseBufferCodeUnits ++ " code units"
  | .malformedJson => "Provider SSE event contained malformed JSON"

inductive SseEvent (J : Type)
  | done
  | json (value : J)
deriving DecidableEq

structure SseChunk (J : Type) where
  events : List (SseEvent J)
  remainder : Text
deriving DecidableEq

/-! ## Line ends -/

/-- What can follow a line end at the start of the text, in the order of the alternatives. -/
def lineEnds : Text → List Text
  | 13 :: 10 :: rest => [rest, 10 :: rest]
  | 13 :: rest => [rest]
  | 10 :: rest => [rest]
  | _ => []

theorem mem_lineEnds {t rest : Text} (h : rest ∈ lineEnds t) :
    ∃ mark, mark ≠ [] ∧ (∀ c ∈ mark, c = lf ∨ c = cr) ∧ t = mark ++ rest := by
  unfold lineEnds at h
  split at h
  · simp only [List.mem_cons, List.not_mem_nil, or_false] at h
    obtain rfl | rfl := h
    · exact ⟨[cr, lf], by decide, by decide, rfl⟩
    · exact ⟨[cr], by decide, by decide, rfl⟩
  · obtain rfl := List.mem_singleton.mp h
    exact ⟨[cr], by decide, by decide, rfl⟩
  · obtain rfl := List.mem_singleton.mp h
    exact ⟨[lf], by decide, by decide, rfl⟩
  · cases h

def lineBreak : Separator Nat where
  find t := (lineEnds t).head?
  cuts := by
    intro t rest h
    obtain ⟨mark, hmark, -, ht⟩ := mem_lineEnds (List.mem_of_head? h)
    exact ⟨mark, hmark, ht⟩

/-- The second line end is looked for after each way to read the first. -/
def blockDelimiter : Separator Nat where
  find t := ((lineEnds t).flatMap lineEnds).head?
  cuts := by
    intro t rest h
    obtain ⟨after, hafter, hrest⟩ := List.mem_flatMap.mp (List.mem_of_head? h)
    obtain ⟨mark, hmark, -, rfl⟩ := mem_lineEnds hafter
    obtain ⟨second, -, -, rfl⟩ := mem_lineEnds hrest
    exact ⟨mark ++ second, by simp [hmark], by rw [List.append_assoc]⟩

/-! ## Blocks -/

/-- The data lines among the lines, without their field names. -/
def dataLines (lines : List Text) : List Text :=
  (lines.filter fun line => line.startsWith "data:").map fun line => Text.trimStart (line.drop 5)

def payload? (lines : List Text) : Option Text :=
  if dataLines lines = [] then none else some (Text.trim ([lf].intercalate (dataLines lines)))

section Parse

variable {J : Type} (parse : Text → Option J)

def parsePayload (payload : Text) : Except SseError (SseEvent J) :=
  if payload = .of "[DONE]" then .ok .done
  else
    match parse payload with
    | some value => .ok (.json value)
    | none => .error .malformedJson

def parseBlock (block : Text) : Except SseError (List (SseEvent J)) :=
  match payload? (lineBreak.split block) with
  | none => .ok []
  | some payload => (parsePayload parse payload).map ([·])

def parseSseBlocks (chunk : Text) : Except SseError (SseChunk J) := do
  let remainder := blockDelimiter.remainder chunk
  if maxProviderSseBufferCodeUnits < remainder.length then throw .remainderExceeded
  let events ← (blockDelimiter.complete chunk).mapM (parseBlock parse)
  return ⟨events.flatten, remainder⟩

def parseBoundedSseChunk (chunk : Text) (maximumCodeUnits : Nat) : Except SseError (SseChunk J) :=
  if maximumCodeUnits < chunk.length then throw (.bufferExceeded maximumCodeUnits) else parseSseBlocks parse chunk

def parseSseChunk (chunk : Text) : Except SseError (SseChunk J) :=
  parseBoundedSseChunk parse chunk maxProviderSseBufferCodeUnits

def parseFinalSseChunk (chunk : Text) : Except SseError (SseChunk J) :=
  if maxProviderSseBufferCodeUnits < chunk.length then throw (.bufferExceeded maxProviderSseBufferCodeUnits)
  else parseBoundedSseChunk parse (chunk ++ [lf, lf]) (maxProviderSseBufferCodeUnits + 2)

def readSse (remainder : Text) : List Text → Except SseError (List (SseEvent J))
  | [] => return (← parseFinalSseChunk parse remainder).events
  | chunk :: chunks => do
    let parsed ← parseSseChunk parse (remainder ++ chunk)
    return parsed.events ++ (← readSse parsed.remainder chunks)

end Parse

/-- No buffer that the reader of the chunks parses is larger than allowed. -/
def BuffersWithinBound (remainder : Text) : List Text → Prop
  | [] => remainder.length ≤ maxProviderSseBufferCodeUnits
  | chunk :: chunks =>
    (remainder ++ chunk).length ≤ maxProviderSseBufferCodeUnits ∧
      BuffersWithinBound (blockDelimiter.remainder (remainder ++ chunk)) chunks

instance decidableBuffersWithinBound : (remainder : Text) → (chunks : List Text) → Decidable (BuffersWithinBound remainder chunks)
  | remainder, [] => inferInstanceAs (Decidable (remainder.length ≤ maxProviderSseBufferCodeUnits))
  | remainder, chunk :: chunks =>
    have := decidableBuffersWithinBound (blockDelimiter.remainder (remainder ++ chunk)) chunks
    inferInstanceAs (Decidable ((remainder ++ chunk).length ≤ maxProviderSseBufferCodeUnits ∧ _))

/-! ## Streams of lines -/

inductive LineTerminator
  | lf
  | cr
  | crlf
deriving DecidableEq

def LineTerminator.text : LineTerminator → Text
  | .lf => [Veryfront.lf]
  | .cr => [Veryfront.cr]
  | .crlf => [Veryfront.cr, Veryfront.lf]

def isNewline (c : Nat) : Bool := c = lf || c = cr

def sseText (terminator : LineTerminator) (lines : List Text) : Text := terminator.text.intercalate lines

def sseEvents (lines : List Text) : List (List Text) := lines.splitOn []

/-- The event, or the single line, has data that neither ends the stream nor is JSON. -/
def Malformed {J : Type} (parse : Text → Option J) (lines : List Text) : Prop :=
  ∃ payload ∈ payload? lines, payload ≠ .of "[DONE]" ∧ parse payload = none

end Veryfront.Provider
