import Mathlib.Algebra.Group.Nat.Defs
import Veryfront.Utils.SseFrames

/-!
# Decoding an AG-UI event stream

The decoder keeps the text after the last complete frame until the next chunk comes. A CR at the end of a chunk is
kept as it is, as the LF of its line end may follow. A frame whose id is not above the last one is skipped, since
a stream that is resumed repeats its last frames. How a frame becomes an event, in permissive mode, is a parameter
with a state of its own.
-/

namespace Veryfront.Chat

open Lib

/-! ## One frame -/

structure ParsedSseEvent where
  id : Option Nat
  event : Option Text
  data : Text
deriving DecidableEq

structure SseFields where
  id : Option Nat
  event : Option Text
  dataLines : List Text

def maxSafeInteger : Nat := 2 ^ 53 - 1

def isDigit (c : Nat) : Bool := 48 ≤ c && c ≤ 57

/-- A decimal number without leading zeros that is a safe integer. -/
def parseEventId (rawId : Text) : Option Nat :=
  let parsed := rawId.foldl (fun n c => 10 * n + (c - 48)) 0
  if rawId.all isDigit && rawId ≠ [] && (rawId = [48] || rawId.head? ≠ some 48) && parsed ≤ maxSafeInteger then some parsed
  else none

def readField (fields : SseFields) (line : Text) : SseFields :=
  if line = [] || line.startsWith ":" then fields
  else if line.startsWith "id:" then
    match parseEventId (Text.trim (line.drop 3)) with
    | some id => { fields with id := some id }
    | none => fields
  else if line.startsWith "event:" then
    let value := Text.trim (line.drop 6)
    { fields with event := if value = [] then none else some value }
  else if line.startsWith "data:" then
    let value : Text := line.drop 5
    { fields with dataLines := fields.dataLines ++ [if value.startsWith " " then value.drop 1 else value] }
  else fields

def parseSseEvent (raw : Text) : ParsedSseEvent :=
  let fields := (raw.splitOn lf).foldl readField ⟨none, none, []⟩
  ⟨fields.id, fields.event, [lf].intercalate fields.dataLines⟩

/-! ## The decoder -/

abbrev FrameMapping (σ W : Type) := σ → ParsedSseEvent → σ × Option W

structure AgUiDecodedEvent (W : Type) where
  eventId : Option Nat
  decoded : W
deriving DecidableEq

/-- What delivering a frame reads and writes. -/
structure AgUiDelivery (σ : Type) where
  lastEventId : Int
  mapping : σ
deriving DecidableEq

structure AgUiChatEventDecoderState (σ : Type) where
  remainder : Text
  maxFrameChars : Nat
  maxFrameChars_pos : 0 < maxFrameChars
  delivery : AgUiDelivery σ
deriving DecidableEq

inductive AgUiRangeError
  | lastEventId
  | maxFrameChars
  | frameExceeded (size : Nat)
deriving DecidableEq

def AgUiRangeError.message : AgUiRangeError → String
  | .lastEventId => "AG-UI decoder lastEventId must be a safe integer no less than -1"
  | .maxFrameChars => "AG-UI decoder maxFrameChars must be a positive safe integer"
  | .frameExceeded size => "AG-UI SSE maximum frame size of " ++ toString size ++ " characters exceeded"

def createAgUiChatEventDecoderState {σ : Type} (lastEventId maxFrameChars : Int) (mapping : σ) :
    Except AgUiRangeError (AgUiChatEventDecoderState σ) :=
  if maxSafeInteger < lastEventId ∨ lastEventId < -1 then .error .lastEventId
  else if h : maxSafeInteger < maxFrameChars ∨ maxFrameChars ≤ 0 then .error .maxFrameChars
  else .ok ⟨[], maxFrameChars.toNat, by omega, lastEventId, mapping⟩

section Decode

variable {σ W : Type} (mapFrame : FrameMapping σ W)

def deliver (d : AgUiDelivery σ) (frame : ParsedSseEvent) : AgUiDelivery σ × Option (AgUiDecodedEvent W) :=
  let (mapping, decoded) := mapFrame d.mapping frame
  ({ d with mapping }, decoded.map (⟨frame.id, ·⟩))

def decodeFrame (d : AgUiDelivery σ) (rawFrame : Text) : AgUiDelivery σ × Option (AgUiDecodedEvent W) :=
  if isCommentOnlySseFrame rawFrame then (d, none)
  else
    let frame := parseSseEvent rawFrame
    match frame.id with
    | none => deliver mapFrame d frame
    | some id =>
      if id ≤ d.lastEventId then (d, none)
      else deliver mapFrame { d with lastEventId := id } frame

def decodeFrames (state : AgUiChatEventDecoderState σ) (events : List (AgUiDecodedEvent W)) :
    List Text → AgUiChatEventDecoderState σ × Except AgUiRangeError (List (AgUiDecodedEvent W))
  | [] => (state, .ok events)
  | rawFrame :: frames =>
    if state.maxFrameChars < rawFrame.length then ({ state with remainder := [] }, .error (.frameExceeded state.maxFrameChars))
    else
      let (delivery, event) := decodeFrame mapFrame state.delivery rawFrame
      decodeFrames { state with delivery } (events ++ event.toList) frames

/-- The CR that is kept as it is. -/
def trailingCarriageReturn (combined : Text) : Text := if combined.getLast? = some cr then [cr] else []

def completeInput (combined : Text) : Text := if combined.getLast? = some cr then combined.dropLast else combined

def decodeAgUiSseChunk (state : AgUiChatEventDecoderState σ) (chunk : Text) :
    AgUiChatEventDecoderState σ × Except AgUiRangeError (List (AgUiDecodedEvent W)) :=
  let combined := state.remainder ++ chunk
  let (frames, remainder) := splitSseFrames (normalizeNewlines (completeInput combined))
  let nextRemainder := remainder ++ trailingCarriageReturn combined
  if state.maxFrameChars < nextRemainder.length then ({ state with remainder := [] }, .error (.frameExceeded state.maxFrameChars))
  else decodeFrames mapFrame { state with remainder := nextRemainder } [] frames

def flushAgUiSseChunk (state : AgUiChatEventDecoderState σ) :
    AgUiChatEventDecoderState σ × Except AgUiRangeError (List (AgUiDecodedEvent W)) :=
  if state.remainder = [] then (state, .ok [])
  else
    let (state, flushed) := decodeAgUiSseChunk mapFrame state [lf, lf]
    ({ state with remainder := [] }, flushed)

/-- The chunks in order and then a flush. A range error ends the stream. -/
def decodeAgUiStream (state : AgUiChatEventDecoderState σ) :
    List Text → AgUiChatEventDecoderState σ × Except AgUiRangeError (List (AgUiDecodedEvent W))
  | [] => flushAgUiSseChunk mapFrame state
  | chunk :: chunks =>
    match decodeAgUiSseChunk mapFrame state chunk with
    | (state, .error e) => (state, .error e)
    | (state, .ok events) =>
      let (state, rest) := decodeAgUiStream state chunks
      (state, rest.map (events ++ ·))

end Decode

end Veryfront.Chat
