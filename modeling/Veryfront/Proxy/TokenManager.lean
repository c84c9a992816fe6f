import Veryfront.Cache.SegmentRoundTrip
import Veryfront.Proxy.ResilientCache
import Veryfront.Security.WorkerEgressGuard
import Veryfront.Utils.PermitSemaphore

/-!
# The token manager

Callers of one identity share a fetch, which goes on when they leave. An invalidation makes a new generation of its identity,
aborts the fetch that is registered and waits for it. A run is a list of actions, each what happens between two awaits or what the
cache, the semaphore or a fetch does.
-/

namespace Veryfront.Proxy.Tokens

open Function Resilient

abbrev CaseMapping := Security.Egress.CaseMapping

/-! ## Identities and generations -/

def maxTokenIdentityLength : Nat := 512

def maxTrackedKeyGenerations : Nat := 10000

def maxSafeInteger : Nat := 2 ^ 53 - 1

structure Identity where
  scope : TokenScope
  projectSlug : Option (List UInt16)
  customDomain : Option (List UInt16)
deriving DecidableEq

def containsAsciiControlCharacter (value : Text) : Bool := value.any fun code => code ≤ 0x1F || code = 0x7F

/-- `none` for the error on what is no token cache identity. -/
def normalizeIdentity (cases : CaseMapping) (value : List UInt16) : Option Text :=
  let normalized := cases.toLowerCase (Text.ofUnits value).trim
  if Text.ofUnits value ≠ normalized ∨ normalized = [] ∨ maxTokenIdentityLength < normalized.length ∨
      containsAsciiControlCharacter normalized then none
  else some normalized

def scopeName : TokenScope → String
  | .preview => "preview"
  | .production => "production"

/-- `JSON.stringify` of an array of three strings. -/
def stringifyKey (scope : TokenScope) (kind : String) (value : Text) : Text :=
  .of "[" ++ Cache.jsonQuote (.of (scopeName scope)) ++ .of "," ++ Cache.jsonQuote (.of kind) ++ .of "," ++ Cache.jsonQuote value ++
    .of "]"

def getCacheKey (cases : CaseMapping) (identity : Identity) : Option Text :=
  match identity.projectSlug, identity.customDomain with
  | some _, some _ => none
  | some projectSlug, none => (normalizeIdentity cases projectSlug).map (stringifyKey identity.scope "project")
  | none, some customDomain => (normalizeIdentity cases customDomain).map (stringifyKey identity.scope "domain")
  | none, none => some (stringifyKey identity.scope "global" [])

/-- The generations that a caller has read. -/
structure Generation where
  globalGeneration : Nat
  generation : Nat
deriving DecidableEq

structure Generations where
  globalGeneration : Nat
  keyGenerations : List (Text × Nat)
  nextKeyGeneration : Nat

namespace Generations

def initial : Generations := ⟨0, [], 1⟩

def current (generations : Generations) (key : Text) : Generation :=
  ⟨generations.globalGeneration, (generations.keyGenerations.lookup key).getD 0⟩

/-- `none` for the range error. -/
def advanceGlobalGeneration (generations : Generations) : Option Generations :=
  if maxSafeInteger ≤ generations.globalGeneration then none else some ⟨generations.globalGeneration + 1, [], 1⟩

/-- A full map is emptied first. -/
def makeRoom (generations : Generations) (key : Text) : Option Generations :=
  if generations.keyGenerations.lookup key = none ∧ maxTrackedKeyGenerations ≤ generations.keyGenerations.length then
    generations.advanceGlobalGeneration
  else some generations

/-- And so are the numbers that have run out. -/
def keepCounting (generations : Generations) : Option Generations :=
  if maxSafeInteger < generations.nextKeyGeneration then generations.advanceGlobalGeneration else some generations

def bumpGeneration (generations : Generations) (key : Text) : Option Generations := do
  let bounded ← generations.makeRoom key
  let counted ← bounded.keepCounting
  return { counted with
    keyGenerations := (key, counted.nextKeyGeneration) :: counted.keyGenerations.filter (·.1 ≠ key)
    nextKeyGeneration := counted.nextKeyGeneration + 1 }

end Generations

/-! ## The state -/

def negativeCacheTtlMs : Int := 300000

def negativeCacheMaxSize : Nat := 1000

def maxTokenTtlMs : Int := 31536000000

def maxCachedTokenLength : Nat := 65536

def tokenFetchAdmissionTimeoutMs : Int := 10000

structure TokenManagerOptions where
  refreshBuffer : Int
  maxConcurrentFetches : Nat
  maxQueuedFetches : Nat
  maxConcurrentResolutions : Nat

inductive TokenError
  | aborted
  | admissionCapacity
  | superseded
  | oauthTokenRequest (status : Nat) (responseText : Text)
  | other
deriving DecidableEq

/-- An entry tells which fetch failed; no code reads that. -/
structure NegativeCacheEntry where
  key : Text
  status : Nat
  responseText : Text
  cachedAt : Int
  fetch : Nat

/-- What is stored of a token, and the fetch that it came from, which no code reads. -/
abbrev Cached := TokenCacheEntry Int × Nat

inductive ProducerStage
  | acquiring
  | admitted
  | fetching
  | storing (entry : TokenCacheEntry Int)
  | stored (token : Text)
  | discarding
  | settled (outcome : Except TokenError Text)

def ProducerStage.isSettled : ProducerStage → Bool
  | .settled _ => true
  | _ => false

def ProducerStage.isStoring : ProducerStage → Bool
  | .storing _ => true
  | _ => false

/-- Whether the producer has a permit. -/
def ProducerStage.holds : ProducerStage → Bool
  | .acquiring | .settled _ => false
  | _ => true

/-- A shared request and what is done for it. -/
structure Producer where
  identity : Identity
  key : Text
  generation : Generation
  aborted : Bool
  stage : ProducerStage
  /-- How often its key had been invalidated when it was made, and when its fetch began. No code reads these. -/
  madeAfter : Nat
  beganAfter : Nat

inductive PurgeStage
  | waiting
  | deleting
  | applied
  | finished
deriving DecidableEq

structure Purge where
  target : Option Text
  producers : List Nat
  stage : PurgeStage
  /-- How often each key has been invalidated, this time included. No code reads it. -/
  counts : Text → Nat

/-- A call of `getToken` ends. What it returns or throws again tells the fetch, which no code reads. -/
inductive Outcome
  | token (token : Text) (fetch : Nat)
  | cachedRejection (status : Nat) (responseText : Text) (fetch : Nat)
  | rejected (error : TokenError)
deriving DecidableEq

inductive CallStage
  | starting
  | awaitingMaintenance (purge : Nat)
  | awaitingInvalidation (purge : Nat)
  | joined (producer : Nat)
  | reading (generation : Generation)
  | read (generation : Generation) (cached : Option Cached)
  | deleting (generation : Generation)
  | deleted (generation : Generation)
  | settled (outcome : Outcome)

def CallStage.isSettled : CallStage → Bool
  | .settled _ => true
  | _ => false

def CallStage.settleDelete : CallStage → CallStage
  | .deleting generation => .deleted generation
  | stage => stage

structure Call where
  identity : Identity
  key : Text
  stage : CallStage
  /-- Its deletion from the cache is in flight, be it aborted meanwhile or not. -/
  deletes : Bool
  /-- How often its key had been invalidated when it began. No code reads it. -/
  startedAfter : Nat

structure TokenManager where
  generations : Generations
  cache : Text → Option Cached
  pendingRequests : Text → Option Nat
  negativeCache : List NegativeCacheEntry
  fetchAdmission : PermitSemaphore.Semaphore
  activeResolutions : Nat
  invalidations : Text → Option Nat
  maintenancePromise : Option Nat
  calls : Nat → Option Call
  callCount : Nat
  producers : Nat → Option Producer
  purges : Nat → Option Purge
  purgeCount : Nat
  /-- How often each key has been invalidated. No code reads it. -/
  invalidated : Text → Nat

/-- What `fetchOAuthToken` comes to. -/
inductive FetchResult
  | response (accessToken : Text) (expiresAt : Int)
  | oauthTokenRequestError (status : Nat) (responseText : Text)
  | otherError

inductive Action
  | getToken (identity : Identity) (now : Int)
  | resumeCall (call : Nat) (now : Int)
  | abortCall (call : Nat)
  | settleRead (call : Nat)
  | settleDelete (call : Nat)
  | timeoutAdmission (producer : Nat)
  | startFetch (producer : Nat)
  | completeFetch (producer : Nat) (result : FetchResult) (now : Int)
  | settleStore (producer : Nat)
  | resumeStore (producer : Nat)
  | settleDiscard (producer : Nat)
  | removeSettledRequest (producer : Nat)
  | invalidateToken (identity : Identity)
  | clearCache
  | resumePurge (purge : Nat)
  | settlePurge (purge : Nat)
  | finishPurge (purge : Nat)
  | forget (key : Text)

namespace TokenManager

def initial (options : TokenManagerOptions) : TokenManager where
  generations := .initial
  cache _ := none
  pendingRequests _ := none
  negativeCache := []
  fetchAdmission := PermitSemaphore.create options.maxConcurrentFetches options.maxQueuedFetches
  activeResolutions := 0
  invalidations _ := none
  maintenancePromise := none
  calls _ := none
  callCount := 0
  producers _ := none
  purges _ := none
  purgeCount := 0
  invalidated _ := 0

variable (manager : TokenManager)

/-! ## Producers -/

def setProducerStage (id : Nat) (stage : ProducerStage) : TokenManager :=
  { manager with
    producers := update manager.producers id ((manager.producers id).map fun producer => { producer with stage := stage }) }

/-- A call of the semaphore that waits is a producer of the same number. -/
def admissionStage : PermitSemaphore.Outcome → ProducerStage
  | .acquired => .admitted
  | .refused => .settled (.error .admissionCapacity)
  | .aborted => .settled (.error .superseded)
  | .rangeError => .settled (.error .other)

def withAdmission (result : PermitSemaphore.Semaphore × List PermitSemaphore.Settlement) : TokenManager :=
  result.2.foldl (fun manager settlement => manager.setProducerStage settlement.call (admissionStage settlement.outcome))
    { manager with fetchAdmission := result.1 }

/-- A producer that holds a permit ends and gives it back. -/
def settleProducer (id : Nat) (outcome : Except TokenError Text) : TokenManager :=
  (manager.setProducerStage id (.settled outcome)).withAdmission (PermitSemaphore.release manager.fetchAdmission)

def abortProducer (id : Nat) : TokenManager :=
  let aborted := { manager with
    producers := update manager.producers id ((manager.producers id).map fun producer => { producer with aborted := true }) }
  match PermitSemaphore.step manager.fetchAdmission (.abort id) with
  | some result => aborted.withAdmission result
  | none => aborted

def isGenerationCurrent (key : Text) (generation : Generation) : Bool := generation = manager.generations.current key

/-- The oldest entry gives way to one more. -/
def rememberRejection (entry : NegativeCacheEntry) : TokenManager :=
  let kept := if negativeCacheMaxSize ≤ manager.negativeCache.length then manager.negativeCache.drop 1 else manager.negativeCache
  { manager with
    negativeCache :=
      if kept.any (·.key = entry.key) then kept.map fun other => if other.key = entry.key then entry else other
      else kept ++ [entry] }

/-- `fetchAndCacheToken` goes on behind its fetch. -/
def completeFetch (id : Nat) (producer : Producer) (result : FetchResult) (now : Int) : TokenManager :=
  let current := manager.isGenerationCurrent producer.key producer.generation && !producer.aborted
  match result with
  | .response accessToken expiresAt =>
    if current then
      manager.setProducerStage id (.storing
        ⟨accessToken, expiresAt, producer.identity.scope,
          (producer.identity.projectSlug <|> producer.identity.customDomain).map Text.ofUnits⟩)
    else manager.settleProducer id (.error .superseded)
  | .oauthTokenRequestError status responseText =>
    (if (status = 400 || status = 404) && current then manager.rememberRejection ⟨producer.key, status, responseText, now, id⟩
      else manager).settleProducer id (.error (.oauthTokenRequest status responseText))
  | .otherError => manager.settleProducer id (.error .other)

/-! ## Calls -/

def setCallStage (id : Nat) (stage : CallStage) : TokenManager :=
  { manager with calls := update manager.calls id ((manager.calls id).map fun call => { call with stage := stage }) }

/-- A call ends and gives its slot back. -/
def settleCall (id : Nat) (outcome : Outcome) : TokenManager :=
  { manager.setCallStage id (.settled outcome) with activeResolutions := manager.activeResolutions - 1 }

def readValidCachedToken (options : TokenManagerOptions) (cached : TokenCacheEntry Int) (expectedScope : TokenScope) (now : Int) :
    Option Text :=
  if cached.token = [] ∨ maxCachedTokenLength < cached.token.length ∨ (maxSafeInteger : Int) < cached.expiresAt.natAbs ∨
      cached.expiresAt ≤ now + options.refreshBuffer ∨ now + maxTokenTtlMs < cached.expiresAt ∨ cached.scope ≠ expectedScope then none
  else some cached.token

def findPending (key : Text) (generation : Generation) : Option Nat :=
  match manager.pendingRequests key with
  | some id => if (manager.producers id).any (·.generation = generation) then some id else none
  | none => none

def createProducer (identity : Identity) (key : Text) (generation : Generation) : TokenManager :=
  let id := manager.fetchAdmission.calls
  { manager with
    producers := update manager.producers id
      (some ⟨identity, key, generation, false, .acquiring, manager.invalidated key, manager.invalidated key⟩)
    pendingRequests := update manager.pendingRequests key (some id) }.withAdmission
      (PermitSemaphore.tryAcquire (.integer tokenFetchAdmissionTimeoutMs) (some false) manager.fetchAdmission)

def attach (id : Nat) (call : Call) (generation : Generation) : TokenManager :=
  match manager.findPending call.key generation with
  | some producer => manager.setCallStage id (.joined producer)
  | none =>
    (manager.createProducer call.identity call.key generation).setCallStage id (.joined manager.fetchAdmission.calls)

/-- Behind the promises that a call waits for. -/
def proceed (id : Nat) (call : Call) (now : Int) : TokenManager :=
  let generation := manager.generations.current call.key
  match manager.findPending call.key generation with
  | some producer => manager.setCallStage id (.joined producer)
  | none =>
    match manager.negativeCache.find? (·.key = call.key) with
    | some entry =>
      if now - entry.cachedAt < negativeCacheTtlMs then
        manager.settleCall id (.cachedRejection entry.status entry.responseText entry.fetch)
      else
        { manager with negativeCache := manager.negativeCache.filter (·.key ≠ call.key) }.setCallStage id (.reading generation)
    | none => manager.setCallStage id (.reading generation)

def awaitInvalidation (id : Nat) (call : Call) (now : Int) : TokenManager :=
  match manager.invalidations call.key with
  | some purge => manager.setCallStage id (.awaitingInvalidation purge)
  | none => manager.proceed id call now

def awaitMaintenance (id : Nat) (call : Call) (now : Int) : TokenManager :=
  match manager.maintenancePromise with
  | some purge => manager.setCallStage id (.awaitingMaintenance purge)
  | none => manager.awaitInvalidation id call now

def resumeRead (options : TokenManagerOptions) (id : Nat) (call : Call) (generation : Generation) (cached : Option Cached) (now : Int) :
    TokenManager :=
  if ¬ manager.isGenerationCurrent call.key generation then manager.settleCall id (.rejected .superseded)
  else
    match cached with
    | some (entry, fetch) =>
      match readValidCachedToken options entry call.identity.scope now with
      | some token => manager.settleCall id (.token token fetch)
      | none => { manager with calls := update manager.calls id (some { call with stage := .deleting generation, deletes := true }) }
    | none => manager.attach id call generation

def isFinished (purge : Nat) : Bool := (manager.purges purge).any (·.stage = .finished)

def resumeCall (options : TokenManagerOptions) (id : Nat) (now : Int) : Option TokenManager :=
  match manager.calls id with
  | none => none
  | some call =>
    match call.stage with
    | .awaitingMaintenance purge => if manager.isFinished purge then some (manager.awaitInvalidation id call now) else none
    | .awaitingInvalidation purge => if manager.isFinished purge then some (manager.proceed id call now) else none
    | .joined producer =>
      match (manager.producers producer).map Producer.stage with
      | some (.settled (.ok token)) => some (manager.settleCall id (.token token producer))
      | some (.settled (.error error)) => some (manager.settleCall id (.rejected error))
      | _ => none
    | .read generation cached => some (manager.resumeRead options id call generation cached now)
    | .deleted generation =>
      some (if manager.isGenerationCurrent call.key generation then manager.attach id call generation
        else manager.settleCall id (.rejected .superseded))
    | _ => none

/-- A call beyond the limit throws, and so does one of an invalid identity. -/
def getToken (cases : CaseMapping) (options : TokenManagerOptions) (identity : Identity) (now : Int) : TokenManager :=
  match getCacheKey cases identity with
  | none => manager
  | some key =>
    if options.maxConcurrentResolutions ≤ manager.activeResolutions then manager
    else
      let call : Call := ⟨identity, key, .starting, false, manager.invalidated key⟩
      { manager with
        calls := update manager.calls manager.callCount (some call)
        callCount := manager.callCount + 1
        activeResolutions := manager.activeResolutions + 1 }.awaitMaintenance manager.callCount call now

/-! ## Invalidations -/

def addPurge (purge : Purge) : TokenManager :=
  { manager with purges := update manager.purges manager.purgeCount (some purge), purgeCount := manager.purgeCount + 1 }

/-- One that is under way is waited for. -/
def invalidateToken (cases : CaseMapping) (identity : Identity) : TokenManager :=
  match getCacheKey cases identity with
  | none => manager
  | some key =>
    match manager.invalidations key, manager.generations.bumpGeneration key with
    | some _, _ | none, none => manager
    | none, some generations =>
      let counts := update manager.invalidated key (manager.invalidated key + 1)
      let bumped := { manager with
        generations := generations
        negativeCache := manager.negativeCache.filter (·.key ≠ key)
        invalidations := update manager.invalidations key (some manager.purgeCount)
        invalidated := counts }
      match manager.pendingRequests key with
      | some producer => (bumped.abortProducer producer).addPurge ⟨some key, [producer], .waiting, counts⟩
      | none => bumped.addPurge ⟨some key, [], .deleting, counts⟩

def registered : List Nat :=
  (List.range manager.fetchAdmission.calls).filter fun id =>
    (manager.producers id).any fun producer => manager.pendingRequests producer.key = some id

def clearCache : TokenManager :=
  match manager.maintenancePromise, manager.generations.advanceGlobalGeneration with
  | some _, _ | none, none => manager
  | none, some generations =>
    let counts := fun key => manager.invalidated key + 1
    (manager.registered.foldl abortProducer
      { manager with
        generations := generations
        maintenancePromise := some manager.purgeCount
        invalidated := counts }).addPurge ⟨none, manager.registered, .waiting, counts⟩

def setPurgeStage (id : Nat) (stage : PurgeStage) : TokenManager :=
  { manager with purges := update manager.purges id ((manager.purges id).map fun purge => { purge with stage := stage }) }

/-! ## The run -/

/-- `none` where the action cannot happen. -/
def step (cases : CaseMapping) (options : TokenManagerOptions) : Action → Option TokenManager
  | .getToken identity now => some (manager.getToken cases options identity now)
  | .resumeCall id now => manager.resumeCall options id now
  | .abortCall id =>
    match manager.calls id with
    | some call => if call.stage.isSettled then none else some (manager.settleCall id (.rejected .aborted))
    | none => none
  | .settleRead id =>
    match manager.calls id with
    | some ⟨_, key, .reading generation, _, _⟩ => some (manager.setCallStage id (.read generation (manager.cache key)))
    | _ => none
  | .settleDelete id =>
    match manager.calls id with
    | some ⟨identity, key, stage, true, startedAfter⟩ =>
      some { manager with
        cache := update manager.cache key none
        calls := update manager.calls id (some ⟨identity, key, stage.settleDelete, false, startedAfter⟩) }
    | _ => none
  | .timeoutAdmission id => (PermitSemaphore.step manager.fetchAdmission (.timeout id)).map manager.withAdmission
  | .startFetch id =>
    match manager.producers id with
    | some ⟨identity, key, generation, aborted, .admitted, madeAfter, _⟩ =>
      some { manager with
        producers := update manager.producers id
          (some ⟨identity, key, generation, aborted, .fetching, madeAfter, manager.invalidated key⟩) }
    | _ => none
  | .completeFetch id result now =>
    match manager.producers id with
    | some producer =>
      match producer.stage with
      | .fetching => some (manager.completeFetch id producer result now)
      | _ => none
    | none => none
  | .settleStore id =>
    match manager.producers id with
    | some ⟨_, key, _, _, .storing entry, _, _⟩ =>
      some ({ manager with cache := update manager.cache key (some (entry, id)) }.setProducerStage id (.stored entry.token))
    | _ => none
  | .resumeStore id =>
    match manager.producers id with
    | some ⟨_, key, generation, aborted, .stored token, _, _⟩ =>
      some (if manager.isGenerationCurrent key generation && !aborted then manager.settleProducer id (.ok token)
        else manager.setProducerStage id .discarding)
    | _ => none
  | .settleDiscard id =>
    match manager.producers id with
    | some ⟨_, key, _, _, .discarding, _, _⟩ =>
      some ({ manager with cache := update manager.cache key none }.settleProducer id (.error .superseded))
    | _ => none
  | .removeSettledRequest id =>
    match manager.producers id with
    | some ⟨_, key, _, _, .settled _, _, _⟩ =>
      some (if manager.pendingRequests key = some id then
          { manager with pendingRequests := update manager.pendingRequests key none }
        else manager)
    | _ => none
  | .invalidateToken identity => some (manager.invalidateToken cases identity)
  | .clearCache => some manager.clearCache
  | .resumePurge id =>
    match manager.purges id with
    | some ⟨target, producers, .waiting, counts⟩ =>
      if producers.all fun producer => (manager.producers producer).any (·.stage.isSettled) then
        some { manager with
          negativeCache := if target = none then [] else manager.negativeCache
          purges := update manager.purges id (some ⟨target, producers, .deleting, counts⟩) }
      else none
    | _ => none
  | .settlePurge id =>
    match manager.purges id with
    | some ⟨target, producers, .deleting, counts⟩ =>
      some { manager with
        cache := match target with
          | some key => update manager.cache key none
          | none => fun _ => none
        purges := update manager.purges id (some ⟨target, producers, .applied, counts⟩) }
    | _ => none
  | .finishPurge id =>
    match manager.purges id with
    | some ⟨target, producers, .applied, counts⟩ =>
      some { manager with
        invalidations := match target with
          | some key => if manager.invalidations key = some id then update manager.invalidations key none else manager.invalidations
          | none => manager.invalidations
        maintenancePromise := match target with
          | some _ => manager.maintenancePromise
          | none => if manager.maintenancePromise = some id then none else manager.maintenancePromise
        purges := update manager.purges id (some ⟨target, producers, .finished, counts⟩) }
    | _ => none
  | .forget key => some { manager with cache := update manager.cache key none }

end TokenManager

def run (cases : CaseMapping) (options : TokenManagerOptions) (actions : List Action) : Option TokenManager :=
  actions.foldlM (fun manager => manager.step cases options) (TokenManager.initial options)

end Veryfront.Proxy.Tokens
