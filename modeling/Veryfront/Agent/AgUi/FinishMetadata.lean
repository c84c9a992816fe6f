import Veryfront.Agent.AgUi.FinishSnapshot

/-!
# Finish metadata

The record that a message-finish event leaves in the run: a finish reason, the usage and the structured output. It is cut
until its durable form fits the payload of a run event.
-/

namespace Veryfront.Agent.AgUi.MessageFinish

variable {ν : Type}

/-! ## JSON text -/

/-- The finite numbers, as the language prints and adds them. -/
structure NumberFormat (ν : Type) where
  text : ν → Text
  nonNegative : ν → Bool
  /-- `none` where the sum is infinite. -/
  add : ν → ν → Option ν
  maxValue : ν
  length_text : ∀ n, (text n).length ≤ 25
  ascii_text : ∀ n, ∀ unit ∈ text n, unit < 128

def comma : Nat := 44

mutual

def stringify (format : NumberFormat ν) : Json ν → Text
  | .null => .of "null"
  | .bool true => .of "true"
  | .bool false => .of "false"
  | .num n => format.text n
  | .str value => Cache.jsonQuote value
  | .arr items => 91 :: [comma].intercalate (stringifyItems format items) ++ [93]
  | .obj properties => 123 :: [comma].intercalate (stringifyProperties format properties) ++ [125]

def stringifyItems (format : NumberFormat ν) : List (Json ν) → List Text
  | [] => []
  | item :: items => stringify format item :: stringifyItems format items

def stringifyProperties (format : NumberFormat ν) : List (Text × Json ν) → List Text
  | [] => []
  | (key, value) :: properties =>
    (Cache.jsonQuote key ++ 58 :: stringify format value) :: stringifyProperties format properties

end

/-! ## What the schema of a JSON value admits -/

def jsonValueMaxDepth : Nat := 128

def jsonValueMaxNodes : Nat := 100000

def jsonValueMaxSerializedBytes : Nat := 4 * 1024 * 1024

structure Visit where
  nodeCount : Nat := 0
  serializedBytes : Nat := 0

def Visit.addSerializedBytes (visit : Visit) (amount : Nat) : Option Visit :=
  if visit.serializedBytes + amount ≤ jsonValueMaxSerializedBytes then
    some { visit with serializedBytes := visit.serializedBytes + amount }
  else none

def utf8LengthWithin (value : Text) (limit : Nat) : Bool := value.length ≤ limit && getUtf8ByteLength value ≤ limit

def visitKeys : List (Text × Json ν) → Visit → Option Visit
  | [], visit => some visit
  | (key, _) :: properties, visit =>
    if utf8LengthWithin key maxKeyBytes then
      (visit.addSerializedBytes (getUtf8ByteLength (Cache.jsonQuote key) + 1)).bind (visitKeys properties)
    else none

mutual

/-- `none` if the value is not admitted. -/
def snapshotVisit (format : NumberFormat ν) : Json ν → (depth : Nat) → Visit → Option Visit
  | value, depth, visit =>
    if jsonValueMaxDepth < depth ∨ jsonValueMaxNodes < visit.nodeCount + 1 then none
    else
      let visit := { visit with nodeCount := visit.nodeCount + 1 }
      match value with
      | .null => visit.addSerializedBytes (getUtf8ByteLength (stringify format .null))
      | .bool b => visit.addSerializedBytes (getUtf8ByteLength (stringify format (.bool b)))
      | .num n => visit.addSerializedBytes (getUtf8ByteLength (format.text n))
      | .str text =>
        if utf8LengthWithin text jsonValueMaxStringBytes then
          visit.addSerializedBytes (getUtf8ByteLength (Cache.jsonQuote text))
        else none
      | .arr items =>
        if jsonValueMaxNodes < items.length then none
        else (visit.addSerializedBytes (2 + (items.length - 1))).bind (visitItems format items (depth + 1))
      | .obj properties =>
        if jsonValueMaxNodes < properties.length then none
        else
          ((visit.addSerializedBytes (2 + (properties.length - 1))).bind (visitKeys properties)).bind
            (visitProperties format properties (depth + 1))

def visitItems (format : NumberFormat ν) : List (Json ν) → (depth : Nat) → Visit → Option Visit
  | [], _, visit => some visit
  | item :: items, depth, visit => (snapshotVisit format item depth visit).bind (visitItems format items depth)

def visitProperties (format : NumberFormat ν) : List (Text × Json ν) → (depth : Nat) → Visit → Option Visit
  | [], _, visit => some visit
  | (_, value) :: properties, depth, visit =>
    (snapshotVisit format value depth visit).bind (visitProperties format properties depth)

end

/-! ## The private serializer -/

mutual

/-- The nodes that remain. An array copies its length as well. -/
def copyData : Json ν → (depth : Nat) → (remaining : Nat) → (maxNodes : Nat) → Option Nat
  | value, depth, remaining, maxNodes =>
    if remaining = 0 ∨ 128 < depth then none
    else
      match value with
      | .arr items =>
        if maxNodes < items.length then none
        else
          (copyItems items (depth + 1) (remaining - 1) maxNodes).bind fun remaining =>
            if remaining = 0 ∨ 128 < depth + 1 then none else some (remaining - 1)
      | .obj properties => copyProperties properties (depth + 1) (remaining - 1) maxNodes
      | _ => some (remaining - 1)

def copyItems : List (Json ν) → (depth : Nat) → (remaining : Nat) → (maxNodes : Nat) → Option Nat
  | [], _, remaining, _ => some remaining
  | item :: items, depth, remaining, maxNodes =>
    (copyData item depth remaining maxNodes).bind fun remaining => copyItems items depth remaining maxNodes

def copyProperties : List (Text × Json ν) → (depth : Nat) → (remaining : Nat) → (maxNodes : Nat) → Option Nat
  | [], _, remaining, _ => some remaining
  | (_, value) :: properties, depth, remaining, maxNodes =>
    (copyData value depth remaining maxNodes).bind fun remaining => copyProperties properties depth remaining maxNodes

end

def privateJsonStringify (format : NumberFormat ν) (value : Json ν) (maxNodes : Nat) : Option Text :=
  (copyData value 0 maxNodes maxNodes).map fun _ => stringify format value

/-! ## Usage -/

inductive UsageValue (ν : Type) where
  | number (value : ν)
  | infinite
  | text (value : Text)

structure FinishEvent (ν : Type) where
  finishReason : Option (Json ν)
  totalUsage : Option (Json ν)
  usage : Option (Json ν)
  /-- What the event holds as data or object. -/
  structured : Option (Json ν)
  objectEncoding : Option (Json ν)

def readFiniteNonNegativeNumber (format : NumberFormat ν) (record : List (Text × Json ν)) (key : String) : Option ν :=
  match record.lookup (.of key) with
  | some (.num value) => if format.nonNegative value then some value else none
  | _ => none

def messageFinishUsage (event : FinishEvent ν) : Option (List (Text × Json ν)) :=
  match event.totalUsage with
  | some (.obj usage) => some usage
  | _ =>
    match event.usage with
    | some (.obj usage) => some usage
    | _ => none

def inputTokens (format : NumberFormat ν) (usage : List (Text × Json ν)) : Option ν :=
  (readFiniteNonNegativeNumber format usage "inputTokens").or (readFiniteNonNegativeNumber format usage "promptTokens")

def outputTokens (format : NumberFormat ν) (usage : List (Text × Json ν)) : Option ν :=
  (readFiniteNonNegativeNumber format usage "outputTokens").or
    (readFiniteNonNegativeNumber format usage "completionTokens")

def totalTokens (format : NumberFormat ν) (usage : List (Text × Json ν)) : Option (UsageValue ν) :=
  match readFiniteNonNegativeNumber format usage "totalTokens" with
  | some total => some (.number total)
  | none =>
    match inputTokens format usage, outputTokens format usage with
    | some input, some output =>
      match format.add input output with
      | some total => some (.number total)
      | none => some .infinite
    | _, _ => none

def cachedInputTokens (format : NumberFormat ν) (usage : List (Text × Json ν)) : Option ν :=
  (readFiniteNonNegativeNumber format usage "cachedInputTokens").or
    (readFiniteNonNegativeNumber format usage "cacheReadInputTokens")

def copiedNumbers : List String :=
  ["cacheCreationInputTokens", "cacheCreation1hInputTokens", "cacheReadInputTokens", "reasoningTokens",
    "billableInputTokens", "billableOutputTokens", "costUsd", "providerInputCostUsd", "providerOutputCostUsd",
    "providerCostUsd", "veryfrontInputChargeUsd", "veryfrontOutputChargeUsd", "veryfrontChargeUsd", "veryfrontBilledUsd",
    "costCredits"]

def copiedTexts : List (String × List String) :=
  [("costSource", ["gateway", "missing", "partial"]), ("billingMode", ["direct", "deferred"]),
    ("usageCaptureStatus", ["complete", "partial", "missing"])]

def usageField (key : String) (value : Option (UsageValue ν)) : List (Text × UsageValue ν) :=
  value.toList.map fun value => (.of key, value)

def copyNumberMetadata (format : NumberFormat ν) (usage : List (Text × Json ν)) (key : String) :
    List (Text × UsageValue ν) :=
  usageField key ((readFiniteNonNegativeNumber format usage key).map .number)

def copyTextMetadata (usage : List (Text × Json ν)) (key : String) (values : List String) : List (Text × UsageValue ν) :=
  usageField key <|
    match usage.lookup (.of key) with
    | some (.str value) => if (values.map Text.of).contains value then some (.text value) else none
    | _ => none

def usageMetadata (format : NumberFormat ν) (usage : List (Text × Json ν)) : List (Text × UsageValue ν) :=
  usageField "inputTokens" ((inputTokens format usage).map .number) ++
    usageField "outputTokens" ((outputTokens format usage).map .number) ++
    usageField "totalTokens" (totalTokens format usage) ++
    usageField "cachedInputTokens" ((cachedInputTokens format usage).map .number) ++
    copiedNumbers.flatMap (copyNumberMetadata format usage) ++
    copiedTexts.flatMap fun field => copyTextMetadata usage field.1 field.2

def readMessageFinishUsageMetadata (format : NumberFormat ν) (event : FinishEvent ν) :
    Option (List (Text × UsageValue ν)) :=
  (messageFinishUsage event).bind fun usage =>
    let metadata := usageMetadata format usage
    if metadata.isEmpty then none else some metadata

/-! ## The record and its durable size -/

structure MetadataValue (ν : Type) where
  finishReason : Option (Json ν)
  totalUsage : Option (List (Text × UsageValue ν))
  object : Option (Json ν)

namespace Key

def finishReason : Text := .of "finishReason"

def totalUsage : Text := .of "totalUsage"

def object : Text := .of "object"

def field : Text := .of "field"

end Key

def UsageValue.toJson : UsageValue ν → Option (Json ν)
  | .number value => some (.num value)
  | .infinite => none
  | .text value => some (.str value)

/-- `none` if a number in it is infinite, which is no JSON data. -/
def usageToJson : Option (List (Text × UsageValue ν)) → Option (Option (List (Text × Json ν)))
  | none => some none
  | some fields =>
    (fields.mapM fun (field : Text × UsageValue ν) => field.2.toJson.map (Prod.mk field.1)).map some

def MetadataValue.toJson (value : MetadataValue ν) : Option (Json ν) :=
  (usageToJson value.totalUsage).map fun usage =>
    .obj (value.finishReason.toList.map (Prod.mk Key.finishReason) ++
      usage.toList.map (fun fields => (Key.totalUsage, .obj fields)) ++ value.object.toList.map (Prod.mk Key.object))

def maxConversationRunEventPayloadBytes : Nat := 240 * 1024

def maxConversationRunEventAppendRequestBytes : Nat := 10 * 1024 * 1024

/-- What is stored for the record, with room for the stamps. -/
def durableEvent (format : NumberFormat ν) (value : Json ν) : Json ν :=
  .obj [(.of "runtime", .str (.of "veryfront")), (.of "kind", .str (.of "message_finish_metadata")), (.of "value", value),
    (.of "type", .str (.of "RUNTIME_EVENT_RECORDED")), (.of "elapsedMs", .num format.maxValue),
    (.of "emittedAt", .num format.maxValue)]

def admitted (format : NumberFormat ν) (value : MetadataValue ν) : Option (Json ν) :=
  value.toJson.bind fun value => (snapshotVisit format value 0 {}).map fun _ => value

/-- `none` for an infinite length. -/
def getMessageFinishMetadataDurableByteLength (format : NumberFormat ν) (value : MetadataValue ν) : Option Nat :=
  (admitted format value).bind fun value =>
    (privateJsonStringify format (durableEvent format value) maxConversationRunEventAppendRequestBytes).map
      getUtf8ByteLength

def isWithinDurableBudget (format : NumberFormat ν) (value : MetadataValue ν) : Bool :=
  (getMessageFinishMetadataDurableByteLength format value).any (· ≤ maxConversationRunEventPayloadBytes)

/-! ## Cutting the record -/

def serializedBudgetExhausted : Text := .of "serialized_budget_exhausted"

def createTruncatedObjectObservation (reason : Text) : Json ν :=
  .obj [(Observed.captureStatus, .str Observed.isPartial), (Observed.reasons, .arr [.str reason]),
    (Observed.value, .str truncatedBudget)]

def createTruncatedScalarObservation (field reason : Text) : Json ν :=
  .obj [(Observed.captureStatus, .str Observed.isPartial), (Key.field, .str field), (Observed.reasons, .arr [.str reason])]

def searchBudget (format : NumberFormat ν) (baseValue : MetadataValue ν) (object : Json ν) (encoding : Encoding)
    (low high : Int) (best : Json ν) : Json ν :=
  if low ≤ high then
    let mid := (low + high + 1) / 2
    let candidate := (createObjectObservation object mid.toNat encoding).toJson
    if isWithinDurableBudget format { baseValue with object := some candidate } then
      searchBudget format baseValue object encoding (mid + 1) high candidate
    else searchBudget format baseValue object encoding low (mid - 1) best
  else best
termination_by (high + 1 - low).toNat
decreasing_by all_goals omega

def createObjectObservationWithinDurableBudget (format : NumberFormat ν) (baseValue : MetadataValue ν) (object : Json ν)
    (encoding : Encoding) : Json ν :=
  searchBudget format baseValue object encoding 0 (min maxOutputBytes maxConversationRunEventPayloadBytes : Nat)
    (createTruncatedObjectObservation serializedBudgetExhausted)

def MetadataValue.base (value : MetadataValue ν) : MetadataValue ν := { value with object := none }

def MetadataValue.hasReasonText (value : MetadataValue ν) : Bool :=
  match value.finishReason with
  | some (.str _) => true
  | _ => false

def truncateFinishReason (value : MetadataValue ν) : MetadataValue ν :=
  { value with finishReason := some (createTruncatedScalarObservation Key.finishReason serializedBudgetExhausted) }

def budgetObject (format : NumberFormat ν) (objectSnapshot object : Json ν) (encoding : Encoding)
    (value : MetadataValue ν) : MetadataValue ν :=
  let value := { value with object := some objectSnapshot }
  if isWithinDurableBudget format value then value
  else { value with object := some (createObjectObservationWithinDurableBudget format value.base object encoding) }

def budgetOutput (format : NumberFormat ν) (output : Option (Json ν × Json ν)) (encoding : Encoding)
    (value : MetadataValue ν) : MetadataValue ν :=
  match output with
  | some (objectSnapshot, object) => budgetObject format objectSnapshot object encoding value
  | none => value

/-- `object` is the output whose snapshot the value holds. -/
def fitWithinDurableBudget (format : NumberFormat ν) (value : MetadataValue ν) (object : Option (Json ν))
    (encoding : Encoding) : MetadataValue ν :=
  if isWithinDurableBudget format value then value
  else
    let output := value.object.bind fun objectSnapshot => object.map (objectSnapshot, ·)
    let value :=
      if value.hasReasonText && !isWithinDurableBudget format value.base then truncateFinishReason value else value
    let value := budgetOutput format output encoding value
    let value :=
      if !isWithinDurableBudget format value && value.hasReasonText then
        budgetOutput format output encoding (truncateFinishReason value)
      else value
    if isWithinDurableBudget format value then value
    else { value with object := some (createTruncatedObjectObservation serializedBudgetExhausted) }

/-! ## The event -/

def observeFinishReason (event : FinishEvent ν) : Option (Json ν) :=
  match event.finishReason with
  | some (.str reason) =>
    if reason = [] then none
    else
      let snapshot := snapshotObjectValue (ν := ν) false (.str reason) 0 ⟨maxOutputBytes, maxNodes⟩
      match snapshot.complete, snapshot.value with
      | true, .str value => some (.str value)
      | _, _ =>
        some (createTruncatedScalarObservation Key.finishReason (snapshot.reasons.headD serializedBudgetExhausted))
  | _ => none

def eventEncoding (event : FinishEvent ν) : Encoding :=
  match event.structured, event.objectEncoding with
  | some _, some (.str encoding) => if encoding = .of "snapshot" then .snapshot else .value
  | _, _ => .value

def observedValue (format : NumberFormat ν) (event : FinishEvent ν) : MetadataValue ν where
  finishReason := observeFinishReason event
  totalUsage := readMessageFinishUsageMetadata format event
  object := event.structured.map fun object =>
    (createObjectObservation object maxOutputBytes (eventEncoding event)).toJson

def fittedValue (format : NumberFormat ν) (event : FinishEvent ν) : MetadataValue ν :=
  fitWithinDurableBudget format (observedValue format event) event.structured (eventEncoding event)

def MetadataValue.isEmpty (value : MetadataValue ν) : Bool :=
  value.finishReason.isNone && value.totalUsage.isNone && value.object.isNone

/-- The records that are emitted; `none` if the schema refuses the value. -/
def createMessageFinishMetadataEvent (format : NumberFormat ν) (event : FinishEvent ν) : Option (List (Json ν)) :=
  let value := fittedValue format event
  if value.isEmpty then some [] else (admitted format value).map fun value => [value]

end Veryfront.Agent.AgUi.MessageFinish
