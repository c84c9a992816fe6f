import Mathlib.Data.Nat.Digits.Defs
import Veryfront.Cache.SegmentCodec

/-!
# Snapshots of structured output

What the encoder keeps of an agent's structured result: a copy bounded in depth, in width, in nodes and in bytes, with a
marker text wherever it left something out. A copy that left something out travels in an envelope, and a capture of the
envelope reads the markers back.
-/

namespace Veryfront.Agent.AgUi.MessageFinish

/-! ## JSON data -/

/-- Acyclic data over the finite numbers `ν`. The properties of a record are in the order of its own keys. -/
inductive Json (ν : Type) where
  | null
  | bool (value : Bool)
  | num (value : ν)
  | str (value : Text)
  | arr (items : List (Json ν))
  | obj (properties : List (Text × Json ν))

variable {ν : Type}

/-! ## Limits and markers -/

def jsonValueMaxStringBytes : Nat := 1024 * 1024

def stringTruncatedSuffix : Text := .of "… [truncated]"

def maxDepth : Nat := 32

def maxArrayItems : Nat := 100

def maxObjectKeys : Nat := 100

def maxOutputBytes : Nat := jsonValueMaxStringBytes

def maxKeyBytes : Nat := 16 * 1024

def maxNodes : Nat := 50000

def truncatedBudget : Text := .of "[truncated message-finish object budget]"

def truncatedNestedData : Text := .of "[truncated nested data]"

def decimal (n : Nat) : Text := if n = 0 then [48] else (Nat.digits 10 n).reverse.map (48 + ·)

def truncatedItems (count : Nat) : Text := .of "[truncated " ++ decimal count ++ .of " items]"

namespace Reason

def aggregateBudgetExhausted : Text := .of "aggregate_budget_exhausted"

def stringTruncated : Text := .of "string_truncated"

def depthReached : Text := .of "max_depth"

def arrayTruncated : Text := .of "array_truncated"

def objectKeyUnsupported : Text := .of "object_key_unsupported"

def objectKeysTruncated : Text := .of "object_keys_truncated"

end Reason

def addCaptureReason (reasons : List Text) (reason : Text) : List Text :=
  if reasons.contains reason then reasons else reasons ++ [reason]

def addCaptureReasons (reasons : List Text) (more : List Text) : List Text := more.foldl addCaptureReason reasons

def getUtf8ByteLength (value : Text) : Nat := (Cache.textEncode value).length

/-! ## Budgets -/

structure Context where
  remainingBytes : Nat
  remainingNodes : Nat

/-- A snapshot of JSON data is complete exactly if no reason was noted. -/
structure Snapshot (α : Type) where
  value : α
  reasons : List Text
  context : Context

def Snapshot.complete {α : Type} (snapshot : Snapshot α) : Bool := snapshot.reasons.isEmpty

/-- `none` once the nodes are used up. -/
def Context.visit (context : Context) : Option Context :=
  if context.remainingNodes = 0 then none
  else some { context with remainingNodes := context.remainingNodes - 1 }

def consumeSnapshotBudget (context : Context) (value : Text) : Option Context :=
  if getUtf8ByteLength value ≤ context.remainingBytes then
    some { context with remainingBytes := context.remainingBytes - getUtf8ByteLength value }
  else none

/-! ## Strings -/

def keepString (context : Context) (value : Text) : Option Context :=
  if getUtf8ByteLength value ≤ jsonValueMaxStringBytes then consumeSnapshotBudget context value else none

/-- The halving search for the slice to keep; every round shortens the slice. -/
def cutString (context : Context) (value : Text) : (rounds : Nat) → (stop : Nat) → Option (Text × Context)
  | 0, _ => none
  | rounds + 1, stop =>
    if stop = 0 then none
    else
      let candidate := value.take stop ++ stringTruncatedSuffix
      match keepString context candidate with
      | some context => some (candidate, context)
      | none => cutString context value rounds (min (stop - 1) ((stop + 1) / 2))

structure TruncatedString where
  value : Text
  truncated : Bool
  context : Context

def truncateString (context : Context) (value : Text) : TruncatedString :=
  match keepString context value with
  | some context => ⟨value, false, context⟩
  | none =>
    if context.remainingBytes ≤ getUtf8ByteLength stringTruncatedSuffix then ⟨truncatedBudget, true, context⟩
    else
      match cutString context value value.length value.length with
      | some (candidate, context) => ⟨candidate, true, context⟩
      | none => ⟨truncatedBudget, true, context⟩

def snapshotString (input : Text) (context : Context) : Snapshot (Json ν) :=
  let kept := truncateString context input
  ⟨.str kept.value,
    if kept.truncated then
      [if kept.value = truncatedBudget then Reason.aggregateBudgetExhausted else Reason.stringTruncated]
    else [],
    kept.context⟩

/-! ## Arrays -/

def isTruncatedItems (value : Text) : Bool :=
  value.startsWith "[truncated " && value.endsWith " items]" &&
    let count : Text := (value.take (value.length - 7)).drop 11
    count ≠ [] && !count.startsWith "0" && count.all fun code => 48 ≤ code && code ≤ 57

def hasArrayTruncationMarker (items : List (Json ν)) : Bool :=
  items.length = maxArrayItems + 1 &&
    match items.getLast? with
    | some (.str value) => isTruncatedItems value
    | _ => false

/-- How many items are copied. A capture of an envelope keeps the marker behind the first hundred. -/
def arrayLimit (preserveArrayTruncationMarkers : Bool) (items : List (Json ν)) : Nat :=
  if preserveArrayTruncationMarkers && hasArrayTruncationMarker items then items.length
  else min items.length maxArrayItems

def closeArray (length limit : Nat) (taken : Snapshot (List (Json ν))) : Snapshot (Json ν) :=
  if limit < length then
    ⟨.arr (taken.value ++ [.str (truncatedItems (length - limit))]),
      addCaptureReason taken.reasons Reason.arrayTruncated, taken.context⟩
  else ⟨.arr taken.value, taken.reasons, taken.context⟩

/-! ## Records -/

def isSupportedObjectKey (key : Text) : Bool := getUtf8ByteLength key ≤ maxKeyBytes

def hasRemainingEligibleObjectProperty (properties : List (Text × Json ν)) : Bool :=
  properties.any fun property => isSupportedObjectKey property.1

/-! ## Values -/

mutual

def snapshotObjectValue (preserve : Bool) : Json ν → (depth : Nat) → Context → Snapshot (Json ν)
  | input, depth, context =>
    match context.visit with
    | none => ⟨.str truncatedBudget, [Reason.aggregateBudgetExhausted], context⟩
    | some context =>
      match input with
      | .null => ⟨.null, [], context⟩
      | .bool value => ⟨.bool value, [], context⟩
      | .num value => ⟨.num value, [], context⟩
      | .str value => snapshotString value context
      | .arr items =>
        if maxDepth ≤ depth then ⟨.str truncatedNestedData, [Reason.depthReached], context⟩
        else
          let limit := arrayLimit preserve items
          closeArray items.length limit (snapshotItems preserve items limit (depth + 1) [] context)
      | .obj properties =>
        if maxDepth ≤ depth then ⟨.str truncatedNestedData, [Reason.depthReached], context⟩
        else
          let taken := snapshotProperties preserve properties 0 (depth + 1) [] context
          ⟨.obj taken.value, taken.reasons, taken.context⟩

def snapshotItems (preserve : Bool) :
    List (Json ν) → (limit : Nat) → (depth : Nat) → List Text → Context → Snapshot (List (Json ν))
  | [], _, _, reasons, context => ⟨[], reasons, context⟩
  | _ :: _, 0, _, reasons, context => ⟨[], reasons, context⟩
  | item :: items, limit + 1, depth, reasons, context =>
    let taken := snapshotObjectValue preserve item depth context
    let others := snapshotItems preserve items limit depth (addCaptureReasons reasons taken.reasons) taken.context
    { others with value := taken.value :: others.value }

def snapshotProperties (preserve : Bool) :
    List (Text × Json ν) → (copiedKeys : Nat) → (depth : Nat) → List Text → Context → Snapshot (List (Text × Json ν))
  | [], _, _, reasons, context => ⟨[], reasons, context⟩
  | (key, value) :: properties, copiedKeys, depth, reasons, context =>
    if !isSupportedObjectKey key then
      snapshotProperties preserve properties copiedKeys depth (addCaptureReason reasons Reason.objectKeyUnsupported) context
    else
      let taken := snapshotObjectValue preserve value depth context
      let reasons := addCaptureReasons reasons taken.reasons
      if maxObjectKeys ≤ copiedKeys + 1 then
        ⟨[(key, taken.value)],
          if hasRemainingEligibleObjectProperty properties then addCaptureReason reasons Reason.objectKeysTruncated
          else reasons,
          taken.context⟩
      else
        let others := snapshotProperties preserve properties (copiedKeys + 1) depth reasons taken.context
        { others with value := (key, taken.value) :: others.value }

end

/-! ## Observations -/

inductive Encoding
  | value
  | snapshot
  deriving DecidableEq

namespace Observed

def captureStatus : Text := .of "captureStatus"

def reasons : Text := .of "reasons"

def value : Text := .of "value"

def isPartial : Text := .of "partial"

def isUnsupported : Text := .of "unsupported"

end Observed

inductive Observation (ν : Type) where
  | whole (value : Json ν)
  | envelope (captureStatus : Text) (reasons : List Text) (value : Json ν)

def Observation.toJson : Observation ν → Json ν
  | .whole value => value
  | .envelope status reasons value =>
    .obj [(Observed.captureStatus, .str status), (Observed.reasons, .arr (reasons.map .str)), (Observed.value, value)]

structure ExistingObservation (ν : Type) where
  status : Text
  reasons : List Text
  value : Json ν

def readReason : Json ν → Option Text
  | .str reason => if reason.length ≤ 128 then some reason else none
  | _ => none

def readReasons (reasons : List (Json ν)) : Option (List Text) :=
  if 1 ≤ reasons.length ∧ reasons.length ≤ maxArrayItems then reasons.mapM readReason else none

def readObjectObservation : Json ν → Option (ExistingObservation ν)
  | .obj properties =>
    if properties.length = 3 then
      match properties.lookup Observed.captureStatus, properties.lookup Observed.reasons,
        properties.lookup Observed.value with
      | some (.str status), some (.arr reasons), some value =>
        if status = Observed.isPartial ∨ status = Observed.isUnsupported then
          (readReasons reasons).map fun reasons => ⟨status, reasons, value⟩
        else none
      | _, _, _ => none
    else none
  | _ => none

def createObjectObservation (object : Json ν) (maxOutputBytes : Nat) (encoding : Encoding) : Observation ν :=
  match if encoding = .snapshot then readObjectObservation object else none with
  | some existing =>
    let snapshot := snapshotObjectValue true existing.value 0 ⟨maxOutputBytes, maxNodes⟩
    .envelope (if snapshot.complete then existing.status else Observed.isPartial)
      (addCaptureReasons existing.reasons snapshot.reasons) snapshot.value
  | none =>
    let snapshot := snapshotObjectValue false object 0 ⟨maxOutputBytes, maxNodes⟩
    if snapshot.complete then .whole snapshot.value
    else .envelope Observed.isPartial snapshot.reasons snapshot.value

end Veryfront.Agent.AgUi.MessageFinish
