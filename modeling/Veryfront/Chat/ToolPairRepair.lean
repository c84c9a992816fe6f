import Veryfront.Utils.Text

/-!
# Repair of tool pairs

A provider wants the result of each tool call in the message of the call or in the tool message right after it. Results
that stand further on are moved there, and a placeholder takes the place of a result that is missing.
-/

namespace Veryfront.Chat.ToolPairs

inductive Role
  | system | user | assistant | tool
deriving DecidableEq

inductive ToolResultOutput (π : Type)
  | text (value : Text)
  | other (data : π)
deriving DecidableEq

/-- `data` is what else a part has. -/
inductive Part (π : Type)
  | toolCall (toolCallId toolName : Text) (providerExecuted : Bool) (data : Option π)
  | toolResult (toolCallId toolName : Text) (output : ToolResultOutput π) (data : Option π)
  | other (data : π)
deriving DecidableEq

inductive Content (π : Type)
  | text (value : Text)
  | parts (parts : List (Part π))
deriving DecidableEq

structure ProviderModelMessage (π : Type) where
  role : Role
  content : Content π
  sourceId : Option Text
deriving DecidableEq

variable {π : Type}

/-- Nothing is copied of an empty id. -/
def copyProviderModelMessageSourceId (source target : ProviderModelMessage π) : ProviderModelMessage π :=
  match source.sourceId with
  | some sourceId => if sourceId = [] then target else { target with sourceId := some sourceId }
  | none => target

def createSyntheticToolResult (toolCallId toolName : Text) : Part π :=
  .toolResult toolCallId toolName (.text (.of "[tool result unavailable]")) none

def Part.resultId : Part π → Option Text
  | .toolResult toolCallId .. => some toolCallId
  | _ => none

def ProviderModelMessage.parts (message : ProviderModelMessage π) : List (Part π) :=
  match message.content with
  | .parts parts => parts
  | .text _ => []

def ProviderModelMessage.isList (message : ProviderModelMessage π) : Bool :=
  match message.content with
  | .parts _ => true
  | .text _ => false

def holdsResult (parts : List (Part π)) (toolCallId : Text) : Bool := parts.any (·.resultId = some toolCallId)

def hasImmediateToolResult (message : Option (ProviderModelMessage π)) (toolCallId : Text) : Bool :=
  message.any fun message => message.role = .tool && holdsResult message.parts toolCallId

structure ToolCall where
  id : Text
  toolName : Text
deriving DecidableEq

def toolCalls (providerExecuted : Bool) (parts : List (Part π)) : List ToolCall :=
  parts.filterMap fun
    | .toolCall toolCallId toolName executed _ => if executed = providerExecuted then some ⟨toolCallId, toolName⟩ else none
    | _ => none

/-! ## One assistant message -/

section Message

variable (preserve : Bool) (parts : List (Part π)) (nextMessage : Option (ProviderModelMessage π))

/-- A call of the provider that gets a placeholder behind it. -/
def wantsPlaceholder (toolCallId : Text) : Bool :=
  !holdsResult parts toolCallId && !hasImmediateToolResult nextMessage toolCallId && !preserve

def repairedContent : List (Part π) :=
  parts.flatMap fun part =>
    match part with
    | .toolCall toolCallId toolName true _ =>
      if wantsPlaceholder preserve parts nextMessage toolCallId then [part, createSyntheticToolResult toolCallId toolName] else [part]
    | _ => [part]

def regularToolCalls : List ToolCall := (toolCalls false parts).filter fun call => !holdsResult parts call.id && !preserve

def unresolvedCalls : List ToolCall :=
  (regularToolCalls preserve parts).filter fun toolCall => !hasImmediateToolResult nextMessage toolCall.id

end Message

/-! ## Results further on -/

/-- The results by their calls, in the order in which they were found. -/
abbrev MovedResults (π : Type) := List (Text × Part π)

def MovedResults.has (moved : MovedResults π) (toolCallId : Text) : Bool := moved.any (·.1 = toolCallId)

def MovedResults.get (moved : MovedResults π) (toolCallId : Text) : Option (Part π) :=
  (moved.find? (·.1 = toolCallId)).map (·.2)

def takeResults (wanted : List Text) : MovedResults π → List (Part π) → MovedResults π × List (Part π)
  | moved, [] => (moved, [])
  | moved, part :: parts =>
    match part.resultId with
    | some toolCallId =>
      if toolCallId ∉ wanted ∨ moved.has toolCallId then
        let (moved', kept) := takeResults wanted moved parts
        (moved', part :: kept)
      else takeResults wanted (moved ++ [(toolCallId, part)]) parts
    | none =>
      let (moved', kept) := takeResults wanted moved parts
      (moved', part :: kept)

def startsTurn (message : ProviderModelMessage π) : Bool := message.role = .user || message.role = .system

/-- Takes the results out of the tool messages of the turn. A message that has nothing left goes. -/
def moveResults (wanted : List Text) : MovedResults π → List (ProviderModelMessage π) →
    MovedResults π × List (ProviderModelMessage π)
  | moved, [] => (moved, [])
  | moved, laterMessage :: rest =>
    if wanted.length ≤ moved.length ∨ startsTurn laterMessage then (moved, laterMessage :: rest)
    else if laterMessage.role ≠ .tool ∨ ¬ laterMessage.isList then
      let (moved', rest') := moveResults wanted moved rest
      (moved', laterMessage :: rest')
    else
      let (taken, keptLaterContent) := takeResults wanted moved laterMessage.parts
      let (moved', rest') := moveResults wanted taken rest
      if keptLaterContent.length = laterMessage.parts.length then (moved', laterMessage :: rest')
      else if keptLaterContent.length = 0 then (moved', rest')
      else
        (moved', copyProviderModelMessageSourceId laterMessage ⟨.tool, .parts keptLaterContent, none⟩ :: rest')

/-- The message right after a call is passed over. -/
def moveResultsBehind (wanted : List Text) : List (ProviderModelMessage π) → MovedResults π × List (ProviderModelMessage π)
  | [] => ([], [])
  | nextMessage :: rest =>
    if startsTurn nextMessage then ([], nextMessage :: rest)
    else
      let (moved, rest') := moveResults wanted [] rest
      (moved, nextMessage :: rest')

def repairedResults (unresolved : List ToolCall) (moved : MovedResults π) : List (Part π) :=
  unresolved.map fun toolCall => (moved.get toolCall.id).getD (createSyntheticToolResult toolCall.id toolCall.toolName)

/-! ## The loop -/

/-- What one turn of the loop puts in place of a message, and the messages that are still to come. -/
structure Repair (π : Type) where
  emitted : List (ProviderModelMessage π)
  rest : List (ProviderModelMessage π)
  mutated : Bool

/-- The tool message that is put in is of no concern to the loop. -/
def repairMessage (preserved : List Text) (message : ProviderModelMessage π) (rest : List (ProviderModelMessage π)) : Repair π :=
  if message.role ≠ .assistant ∨ ¬ message.isList then ⟨[message], rest, false⟩
  else
    let nextMessage := rest.head?
    let preserve := message.sourceId.any (· ∈ preserved)
    let content := repairedContent preserve message.parts nextMessage
    let message' :=
      if content.length ≠ message.parts.length then
        copyProviderModelMessageSourceId message ⟨message.role, .parts content, none⟩
      else message
    let unresolved := unresolvedCalls preserve message.parts nextMessage
    if unresolved.length = 0 then ⟨[message'], rest, content.length ≠ message.parts.length⟩
    else
      let (moved, rest') := moveResultsBehind (unresolved.map (·.id)) rest
      let results := repairedResults unresolved moved
      match rest' with
      | next :: rest'' =>
        if next.role = .tool ∧ next.isList then
          let next' := copyProviderModelMessageSourceId next ⟨.tool, .parts (results ++ next.parts), none⟩
          ⟨[message', next'], rest'', true⟩
        else ⟨[message', copyProviderModelMessageSourceId message ⟨.tool, .parts results, none⟩], next :: rest'', true⟩
      | [] => ⟨[message', copyProviderModelMessageSourceId message ⟨.tool, .parts results, none⟩], [], true⟩

/-- `fuel` is a bound on the messages. -/
def repairFrom (preserved : List Text) : (fuel : Nat) → List (ProviderModelMessage π) → List (ProviderModelMessage π) × Bool
  | 0, messages => (messages, false)
  | _ + 1, [] => ([], false)
  | fuel + 1, message :: rest =>
    let repair := repairMessage preserved message rest
    let (result, mutated) := repairFrom preserved fuel repair.rest
    (repair.emitted ++ result, repair.mutated || mutated)

def repairToolPairsWithOptions (messages : List (ProviderModelMessage π)) (preserved : List Text) : List (ProviderModelMessage π) :=
  let (result, mutated) := repairFrom preserved messages.length messages
  if mutated then result else messages

def repairToolPairs (messages : List (ProviderModelMessage π)) : List (ProviderModelMessage π) :=
  repairToolPairsWithOptions messages []

def repairToolPairsForPreparation (messages : List (ProviderModelMessage π))
    (preserveUnresolvedProviderCallSourceMessageIds : Option (List Text)) : List (ProviderModelMessage π) :=
  repairToolPairsWithOptions messages (preserveUnresolvedProviderCallSourceMessageIds.getD [])

end Veryfront.Chat.ToolPairs
