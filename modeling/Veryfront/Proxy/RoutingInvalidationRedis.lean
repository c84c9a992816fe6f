import Mathlib.Logic.Function.Basic
import Veryfront.Lib.OrdMap
import Veryfront.Utils.Text

/-!
# Routing invalidation over Redis

A replica publishes an event to all replicas and counts, by their names, those that acknowledge it. A run is a list of
actions, each what happens between two awaits or what the broker does.
-/

namespace Veryfront.Proxy.RoutingInvalidation

open Lib Function

/-! ## Events -/

structure ProxyRoutingInvalidationEvent where
  version : Nat
  eventId : Text
  projectId : Text
  projectSlug : Text
  deploymentId : Text
  environmentId : Text
  environmentName : Text
  releaseId : Text
deriving DecidableEq

/-- What is read of a payload that was signed. -/
def parseEvent (event : ProxyRoutingInvalidationEvent) : Option ProxyRoutingInvalidationEvent :=
  if event.version = 1 ∧ event.eventId ≠ [] ∧ event.projectId ≠ [] ∧ event.projectSlug ≠ [] ∧ event.deploymentId ≠ [] ∧
      event.environmentId ≠ [] ∧ event.environmentName ≠ [] ∧ event.releaseId ≠ [] then some event
  else none

structure RoutingInvalidationAcknowledgement where
  eventId : Text
  replicaId : Text
deriving DecidableEq

def parseAcknowledgement (acknowledgement : RoutingInvalidationAcknowledgement) : Option RoutingInvalidationAcknowledgement :=
  if acknowledgement.eventId ≠ [] ∧ acknowledgement.replicaId ≠ [] then some acknowledgement else none

def acknowledgementChannel (eventId : Text) : Text := .of "vf-proxy-routing-invalidations-v1:ack:" ++ eventId

/-- `none` is no integer. -/
def positiveInteger (value : Option Int) (fallback : Nat) : Nat :=
  match value with
  | some parsed => if 0 < parsed then parsed.toNat else fallback
  | none => fallback

/-! ## Handling events -/

inductive ProcessingStage
  | scheduled
  | running
  | handled (ok : Bool)
  | settled (ok : Bool)
deriving DecidableEq

/-- One run of `onInvalidate`. -/
structure Processing where
  eventId : Text
  stage : ProcessingStage
deriving DecidableEq

inductive HandlingStage
  | verifying
  | awaiting (processing : Nat)
  | processed
  | signing
  | publishing
  | acknowledged
  | dropped
deriving DecidableEq

/-- A message that was received on the channel of the events. -/
structure Handling where
  event : ProxyRoutingInvalidationEvent
  stage : HandlingStage
deriving DecidableEq

/-- What a replica keeps of the events that reach it. -/
structure Handlers where
  processedEventIds : List Text
  eventProcessing : OrdMap Text Nat
  processings : Nat → Option Processing
  handlings : Nat → Option Handling
  allocated : Nat

namespace Handlers

def empty : Handlers := ⟨[], .empty, fun _ => none, fun _ => none, 0⟩

def maxRecentEventIds : Nat := 1000

/-- The oldest go while there are too many. -/
def trimRecent : List Text → List Text
  | [] => []
  | oldestEventId :: rest =>
    if maxRecentEventIds < (oldestEventId :: rest).length ∧ oldestEventId ≠ [] then trimRecent rest else oldestEventId :: rest

def rememberProcessedEvent (processedEventIds : List Text) (eventId : Text) : List Text :=
  trimRecent (processedEventIds.erase eventId ++ [eventId])

variable (handlers : Handlers)

def receive (event : ProxyRoutingInvalidationEvent) : Handlers :=
  { handlers with
    handlings := update handlers.handlings handlers.allocated (some ⟨event, .verifying⟩)
    allocated := handlers.allocated + 1 }

def move (handling : Nat) (event : ProxyRoutingInvalidationEvent) (stage : HandlingStage) : Handlers :=
  { handlers with handlings := update handlers.handlings handling (some ⟨event, stage⟩) }

/-- An event that was handled lately, or is being handled, is not handled again. -/
def processEvent (handling : Nat) (event : ProxyRoutingInvalidationEvent) : Handlers :=
  if event.eventId ∈ handlers.processedEventIds then handlers.move handling event .processed
  else
    match handlers.eventProcessing.get? event.eventId with
    | some existing => handlers.move handling event (.awaiting existing)
    | none =>
      { handlers.move handling event (.awaiting handlers.allocated) with
        processings := update handlers.processings handlers.allocated (some ⟨event.eventId, .scheduled⟩)
        eventProcessing := handlers.eventProcessing.set event.eventId handlers.allocated
        allocated := handlers.allocated + 1 }

/-- The verification of a message ends. `valid` is false for a message that is too old or too large. -/
def verified (closed : Bool) (handling : Nat) (valid : Bool) : Option Handlers :=
  match handlers.handlings handling with
  | some ⟨event, .verifying⟩ =>
    match if ¬ valid ∨ closed then none else parseEvent event with
    | none => some (handlers.move handling event .dropped)
    | some event => some (handlers.processEvent handling event)
  | _ => none

def setStage (processing : Nat) (eventId : Text) (stage : ProcessingStage) : Handlers :=
  { handlers with processings := update handlers.processings processing (some ⟨eventId, stage⟩) }

def startHandler (processing : Nat) : Option Handlers :=
  match handlers.processings processing with
  | some ⟨eventId, .scheduled⟩ => some (handlers.setStage processing eventId .running)
  | _ => none

def finishHandler (processing : Nat) (ok : Bool) : Option Handlers :=
  match handlers.processings processing with
  | some ⟨eventId, .running⟩ => some (handlers.setStage processing eventId (.handled ok))
  | _ => none

/-- What stands behind the handler in the chain of the processing. -/
def settleProcessing (processing : Nat) : Option Handlers :=
  match handlers.processings processing with
  | some ⟨eventId, .handled ok⟩ =>
    some
      { handlers.setStage processing eventId (.settled ok) with
        processedEventIds :=
          if ok then rememberProcessedEvent handlers.processedEventIds eventId else handlers.processedEventIds
        eventProcessing := handlers.eventProcessing.erase eventId }
  | _ => none

def resume (closed : Bool) (handling : Nat) : Option Handlers :=
  match handlers.handlings handling with
  | some ⟨event, .processed⟩ => some (handlers.move handling event (if closed then .dropped else .signing))
  | some ⟨event, .awaiting processing⟩ =>
    match handlers.processings processing with
    | some ⟨_, .settled true⟩ => some (handlers.move handling event (if closed then .dropped else .signing))
    | some ⟨_, .settled false⟩ => some (handlers.move handling event .dropped)
    | _ => none
  | _ => none

def signed (handling : Nat) (ok : Bool) : Option Handlers :=
  match handlers.handlings handling with
  | some ⟨event, .signing⟩ => some (handlers.move handling event (if ok then .publishing else .dropped))
  | _ => none

def acknowledge (handling : Nat) : Option (Text × Handlers) :=
  match handlers.handlings handling with
  | some ⟨event, .publishing⟩ => some (event.eventId, handlers.move handling event .acknowledged)
  | _ => none

end Handlers

/-! ## Publishing events -/

structure ProxyRoutingInvalidationPublishResult where
  acknowledged : Nat
  converged : Bool
  recipients : Nat
deriving DecidableEq

/-- `none` as a result is a throw. -/
inductive PublishStage
  | subscribing (listeners : Nat)
  | subscribed (listeners : Nat)
  | signing
  | publishing
  | published (recipients : Nat)
  | waiting
  | unsubscribing (result : Option ProxyRoutingInvalidationPublishResult)
  | settled (result : Option ProxyRoutingInvalidationPublishResult)
deriving DecidableEq

/-- One call of `publish`. -/
structure Publish where
  replicaId : Text
  event : ProxyRoutingInvalidationEvent
  stage : PublishStage
  acknowledgedReplicas : List Text
  recipients : Nat
  acknowledgementReceived : Bool
  /-- Who was subscribed when the broker published the event. No code reads it. -/
  subscribers : Option (List Text)
deriving DecidableEq

/-- The listeners of a channel are a set of their own, which the callback of the subscription keeps hold of. -/
structure Bus where
  expectedReplicas : Nat
  closed : Bool
  subscribed : Bool
  acknowledgementListeners : OrdMap Text Nat
  activeAcknowledgementChannels : List Text
  /-- The callbacks of the client, by channel. -/
  callbacks : List (Text × Nat)

structure AckMessage where
  client : Text
  channel : Text
  payload : RoutingInvalidationAcknowledgement
deriving DecidableEq

/-- Two replicas never have one name. -/
structure System where
  replicas : List Text
  buses : Text → Option Bus
  handlers : Text → Handlers
  publishes : Nat → Option Publish
  listeners : Nat → List Nat
  allocated : Nat
  events : List (Text × ProxyRoutingInvalidationEvent)
  acks : List AckMessage
  verifying : List (Nat × RoutingInvalidationAcknowledgement)

inductive Action
  | start (replicaId : Text) (expectedReplicas : Option Int)
  | disconnect (replicaId : Text)
  | reconnect (replicaId : Text)
  | close (replicaId : Text)
  | loseEvent (message : Text × ProxyRoutingInvalidationEvent)
  | loseAck (message : AckMessage)
  | receiveEvent (message : Text × ProxyRoutingInvalidationEvent)
  | verified (replicaId : Text) (handling : Nat) (valid : Bool)
  | startHandler (replicaId : Text) (processing : Nat)
  | finishHandler (replicaId : Text) (processing : Nat) (ok : Bool)
  | settleProcessing (replicaId : Text) (processing : Nat)
  | resume (replicaId : Text) (handling : Nat)
  | signedAck (replicaId : Text) (handling : Nat) (ok : Bool)
  | acknowledge (replicaId : Text) (handling : Nat)
  | receiveAck (message : AckMessage)
  | verifiedAck (publish : Nat) (acknowledgement : RoutingInvalidationAcknowledgement) (valid : Bool)
  | publish (replicaId : Text) (event : ProxyRoutingInvalidationEvent)
  | subscribed (publish : Nat) (ok : Bool)
  | resumeSubscribed (publish : Nat)
  | signedEvent (publish : Nat) (ok : Bool)
  | broadcast (publish : Nat)
  | failPublish (publish : Nat)
  | resumePublished (publish : Nat)
  | timeout (publish : Nat)
  | wake (publish : Nat)
  | unsubscribed (publish : Nat) (ok : Bool)
deriving DecidableEq

namespace System

def initial : System where
  replicas := []
  buses _ := none
  handlers _ := .empty
  publishes _ := none
  listeners _ := []
  allocated := 0
  events := []
  acks := []
  verifying := []

variable (system : System)

/-- The replicas that the broker publishes an event to. -/
def subscribers : List Text := system.replicas.filter fun replicaId => (system.buses replicaId).any Bus.subscribed

def setBus (replicaId : Text) (bus : Bus) : System := { system with buses := update system.buses replicaId (some bus) }

def setHandlers (replicaId : Text) (handlers : Handlers) : System :=
  { system with handlers := update system.handlers replicaId handlers }

def setPublish (publish : Nat) (entry : Publish) : System :=
  { system with publishes := update system.publishes publish (some entry) }

def isClosed (replicaId : Text) : Bool := (system.buses replicaId).any Bus.closed

/-! ### Listeners of acknowledgements -/

def addListener (publish : Nat) (entry : Publish) (listeners : Nat) (bus : Bus) : System :=
  let channel := acknowledgementChannel entry.event.eventId
  let set := system.listeners listeners
  ({ system with listeners := update system.listeners listeners (if publish ∈ set then set else set ++ [publish]) }.setBus
    entry.replicaId
    { bus with
      activeAcknowledgementChannels :=
        if channel ∈ bus.activeAcknowledgementChannels then bus.activeAcknowledgementChannels
        else bus.activeAcknowledgementChannels ++ [channel] }).setPublish publish { entry with stage := .signing }

/-- The first part of `publish`. A channel that has listeners already is not subscribed to again. -/
def publish (replicaId : Text) (event : ProxyRoutingInvalidationEvent) : Option System := do
  let bus ← system.buses replicaId
  if bus.closed then none
  else
    let channel := acknowledgementChannel event.eventId
    let entry : Publish := ⟨replicaId, event, .signing, [], 0, false, none⟩
    match bus.acknowledgementListeners.get? channel with
    | some listeners => some ({ system with allocated := system.allocated + 1 }.addListener system.allocated entry listeners bus)
    | none =>
      some (({ system with allocated := system.allocated + 2 }.setBus replicaId
        { bus with acknowledgementListeners := bus.acknowledgementListeners.set channel (system.allocated + 1) }).setPublish
          system.allocated { entry with stage := .subscribing (system.allocated + 1) })

/-- The broker answers a subscription. -/
def subscribed (publish : Nat) (ok : Bool) : Option System := do
  let entry ← system.publishes publish
  let bus ← system.buses entry.replicaId
  let channel := acknowledgementChannel entry.event.eventId
  match entry.stage with
  | .subscribing listeners =>
    if ok then
      some ((system.setBus entry.replicaId { bus with callbacks := bus.callbacks ++ [(channel, listeners)] }).setPublish publish
        { entry with stage := .subscribed listeners })
    else
      some ((system.setBus entry.replicaId
        { bus with acknowledgementListeners := bus.acknowledgementListeners.erase channel }).setPublish publish
          { entry with stage := .settled none })
  | _ => none

def resumeSubscribed (publish : Nat) : Option System := do
  let entry ← system.publishes publish
  let bus ← system.buses entry.replicaId
  match entry.stage with
  | .subscribed listeners =>
    if bus.closed then
      let channel := acknowledgementChannel entry.event.eventId
      some ((system.setBus entry.replicaId
        { bus with acknowledgementListeners := bus.acknowledgementListeners.erase channel }).setPublish publish
          { entry with stage := .unsubscribing none })
    else some (system.addListener publish entry listeners bus)
  | _ => none

/-- The last part of `publish`: the listener goes, and the channel with its last listener. -/
def unsubscribeAcknowledgement (publish : Nat) (entry : Publish) (bus : Bus)
    (result : Option ProxyRoutingInvalidationPublishResult) : System :=
  let channel := acknowledgementChannel entry.event.eventId
  match bus.acknowledgementListeners.get? channel with
  | none => system.setPublish publish { entry with stage := .settled result }
  | some listeners =>
    let rest := (system.listeners listeners).erase publish
    let without : System := { system with listeners := update system.listeners listeners rest }
    if rest ≠ [] then without.setPublish publish { entry with stage := .settled result }
    else
      (without.setBus entry.replicaId
        { bus with
          acknowledgementListeners := bus.acknowledgementListeners.erase channel
          activeAcknowledgementChannels := bus.activeAcknowledgementChannels.erase channel }).setPublish publish
        { entry with stage := if bus.closed then .settled result else .unsubscribing result }

def unsubscribed (publish : Nat) (ok : Bool) : Option System := do
  let entry ← system.publishes publish
  let bus ← system.buses entry.replicaId
  match entry.stage with
  | .unsubscribing result =>
    if ok then
      some ((system.setBus entry.replicaId
        { bus with callbacks := bus.callbacks.filter (·.1 ≠ acknowledgementChannel entry.event.eventId) }).setPublish publish
          { entry with stage := .settled result })
    else some (system.setPublish publish { entry with stage := .settled none })
  | _ => none

/-! ### The event and its acknowledgements -/

def signedEvent (publish : Nat) (ok : Bool) : Option System := do
  let entry ← system.publishes publish
  let bus ← system.buses entry.replicaId
  match entry.stage with
  | .signing =>
    if ok then some (system.setPublish publish { entry with stage := .publishing })
    else
      some (system.unsubscribeAcknowledgement publish entry bus
        (if bus.closed then some ⟨entry.acknowledgedReplicas.length, false, entry.recipients⟩ else none))
  | _ => none

def broadcast (publish : Nat) : Option System := do
  let entry ← system.publishes publish
  match entry.stage with
  | .publishing =>
    some ({ system with events := system.events ++ system.subscribers.map fun replicaId => (replicaId, entry.event) }.setPublish
      publish { entry with stage := .published system.subscribers.length, subscribers := some system.subscribers })
  | _ => none

/-- The call to the broker fails, whether or not the event was published. -/
def failPublish (publish : Nat) : Option System := do
  let entry ← system.publishes publish
  let bus ← system.buses entry.replicaId
  match entry.stage with
  | .publishing | .published _ =>
    some (system.unsubscribeAcknowledgement publish entry bus
      (if bus.closed then some ⟨entry.acknowledgedReplicas.length, false, entry.recipients⟩ else none))
  | _ => none

def resultOf (entry : Publish) (bus : Bus) : ProxyRoutingInvalidationPublishResult where
  acknowledged := entry.acknowledgedReplicas.length
  converged := bus.expectedReplicas ≤ entry.recipients ∧ entry.recipients ≤ entry.acknowledgedReplicas.length
  recipients := entry.recipients

def resumePublished (publish : Nat) : Option System := do
  let entry ← system.publishes publish
  let bus ← system.buses entry.replicaId
  match entry.stage with
  | .published recipients =>
    let entry := { entry with
      recipients := recipients
      acknowledgementReceived := entry.acknowledgementReceived ||
        (decide (0 < recipients) && decide (recipients ≤ entry.acknowledgedReplicas.length)) }
    if 0 < recipients then some (system.setPublish publish { entry with stage := .waiting })
    else some (system.unsubscribeAcknowledgement publish entry bus (some (resultOf entry bus)))
  | _ => none

def finish (publish : Nat) (due : Publish → Bus → Bool) : Option System := do
  let entry ← system.publishes publish
  let bus ← system.buses entry.replicaId
  match entry.stage with
  | .waiting =>
    if due entry bus then some (system.unsubscribeAcknowledgement publish entry bus (some (resultOf entry bus))) else none
  | _ => none

def receiveAck (message : AckMessage) : Option System := do
  let bus ← system.buses message.client
  if message ∈ system.acks then
    let called := (bus.callbacks.filter (·.1 = message.channel)).flatMap fun (_, listeners) =>
      (system.listeners listeners).filter fun publish =>
        (system.publishes publish).any fun entry => acknowledgementChannel entry.event.eventId = message.channel
    some { system with
      acks := system.acks.erase message
      verifying := system.verifying ++ called.map fun publish => (publish, message.payload) }
  else none

def count (entry : Publish) (replicaId : Text) : Publish :=
  let acknowledgedReplicas :=
    if replicaId ∈ entry.acknowledgedReplicas then entry.acknowledgedReplicas else entry.acknowledgedReplicas ++ [replicaId]
  { entry with
    acknowledgedReplicas := acknowledgedReplicas
    acknowledgementReceived := entry.acknowledgementReceived ||
      (decide (0 < entry.recipients) && decide (entry.recipients ≤ acknowledgedReplicas.length)) }

def verifiedAck (publish : Nat) (acknowledgement : RoutingInvalidationAcknowledgement) (valid : Bool) : Option System := do
  let entry ← system.publishes publish
  if (publish, acknowledgement) ∈ system.verifying then
    let rest : System := { system with verifying := system.verifying.erase (publish, acknowledgement) }
    match if valid then parseAcknowledgement acknowledgement else none with
    | none => some rest
    | some acknowledgement =>
      if acknowledgement.eventId ≠ entry.event.eventId then some rest
      else some (rest.setPublish publish (count entry acknowledgement.replicaId))
  else none

/-- The clients that listen for acknowledgements of an event. -/
def ackClients (channel : Text) : List Text :=
  system.replicas.filter fun replicaId => (system.buses replicaId).any fun bus => bus.callbacks.any (·.1 = channel)

def acknowledge (replicaId : Text) (handling : Nat) : Option System := do
  let (eventId, handlers) ← (system.handlers replicaId).acknowledge handling
  let channel := acknowledgementChannel eventId
  some { system.setHandlers replicaId handlers with
    acks := system.acks ++ (system.ackClients channel).map fun client => ⟨client, channel, ⟨eventId, replicaId⟩⟩ }

/-- `none` where the action cannot happen. -/
def step : Action → Option System
  | .start replicaId expectedReplicas =>
    if replicaId ∈ system.replicas then none
    else
      some ({ system with replicas := system.replicas ++ [replicaId] }.setBus replicaId
        ⟨positiveInteger expectedReplicas 1, false, true, .empty, [], []⟩)
  | .disconnect replicaId => (system.buses replicaId).map fun bus => system.setBus replicaId { bus with subscribed := false }
  | .reconnect replicaId =>
    (system.buses replicaId).bind fun bus =>
      if bus.closed then none else some (system.setBus replicaId { bus with subscribed := true })
  | .close replicaId => (system.buses replicaId).map fun bus => system.setBus replicaId { bus with closed := true }
  | .loseEvent message => some { system with events := system.events.erase message }
  | .loseAck message => some { system with acks := system.acks.erase message }
  | .receiveEvent (replicaId, event) =>
    if (replicaId, event) ∈ system.events then
      some ({ system with events := system.events.erase (replicaId, event) }.setHandlers replicaId
        ((system.handlers replicaId).receive event))
    else none
  | .verified replicaId handling valid =>
    ((system.handlers replicaId).verified (system.isClosed replicaId) handling valid).map (system.setHandlers replicaId)
  | .startHandler replicaId processing =>
    ((system.handlers replicaId).startHandler processing).map (system.setHandlers replicaId)
  | .finishHandler replicaId processing ok =>
    ((system.handlers replicaId).finishHandler processing ok).map (system.setHandlers replicaId)
  | .settleProcessing replicaId processing =>
    ((system.handlers replicaId).settleProcessing processing).map (system.setHandlers replicaId)
  | .resume replicaId handling =>
    ((system.handlers replicaId).resume (system.isClosed replicaId) handling).map (system.setHandlers replicaId)
  | .signedAck replicaId handling ok =>
    ((system.handlers replicaId).signed handling ok).map (system.setHandlers replicaId)
  | .acknowledge replicaId handling => system.acknowledge replicaId handling
  | .receiveAck message => system.receiveAck message
  | .verifiedAck publish acknowledgement valid => system.verifiedAck publish acknowledgement valid
  | .publish replicaId event => system.publish replicaId event
  | .subscribed publish ok => system.subscribed publish ok
  | .resumeSubscribed publish => system.resumeSubscribed publish
  | .signedEvent publish ok => system.signedEvent publish ok
  | .broadcast publish => system.broadcast publish
  | .failPublish publish => system.failPublish publish
  | .resumePublished publish => system.resumePublished publish
  | .timeout publish => system.finish publish fun _ _ => true
  | .wake publish => system.finish publish fun entry bus => entry.acknowledgementReceived || bus.closed
  | .unsubscribed publish ok => system.unsubscribed publish ok

end System

def run (actions : List Action) : Option System := actions.foldlM System.step .initial

end Veryfront.Proxy.RoutingInvalidation
