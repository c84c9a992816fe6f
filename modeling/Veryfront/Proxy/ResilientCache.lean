import Mathlib.Logic.Function.Basic
import Veryfront.Utils.Text

/-!
# The resilient token cache

A primary that may fail and a fallback that does not. Mutations take place one after the other, reads at any time. While the
circuit is open mutations are remembered, and a recovery replays them. A run is a list of actions, each what happens between
two awaits or what a backend does.
-/

namespace Veryfront.Proxy.Resilient

open Function

variable {τ : Type}

inductive TokenScope
  | preview
  | production
deriving DecidableEq

structure TokenCacheEntry (τ : Type) where
  token : Text
  expiresAt : τ
  scope : TokenScope
  projectSlug : Option Text
deriving DecidableEq

/-- What a backend holds. -/
abbrev Contents (τ : Type) := Text → Option (TokenCacheEntry τ)

structure ResilientCacheOptions (τ : Type) where
  failureThreshold : Nat
  openDurationMs : τ

def maxPendingMutations : Nat := 10000

def maxQueuedMutations : Nat := 10000

inductive CircuitState
  | closed
  | open
  | halfOpen
deriving DecidableEq

inductive PendingMutation (τ : Type)
  | set (entry : TokenCacheEntry τ)
  | delete
deriving DecidableEq

def PendingMutation.value : PendingMutation τ → Option (TokenCacheEntry τ)
  | .set entry => some entry
  | .delete => none

inductive Mutation (τ : Type)
  | set (key : Text) (entry : TokenCacheEntry τ)
  | delete (key : Text)
  | clear
deriving DecidableEq

def Mutation.apply (contents : Contents τ) : Mutation τ → Contents τ
  | .set key entry => update contents key (some entry)
  | .delete key => update contents key none
  | .clear => fun _ => none

def Mutation.touches (mutation : Mutation τ) (key : Text) : Bool :=
  match mutation with
  | .set other _ | .delete other => other = key
  | .clear => true

/-- An operation of the primary settles. One that fails may have been applied. -/
inductive Outcome
  | ok
  | failed (applied : Bool)
deriving DecidableEq

def Outcome.applied : Outcome → Bool
  | .ok => true
  | .failed applied => applied

/-- Where a call of `canUsePrimary` has come to. -/
inductive Check
  | joined
  | owning
  | owned (usable : Bool)
  | answered (usable : Bool)
deriving DecidableEq

inductive MutationStage
  | fallback
  | applied
  | checking (check : Check)
  | primary
  | settled (ok : Bool)
deriving DecidableEq

inductive ReadKind
  | get
  | has
deriving DecidableEq

inductive Reply (τ : Type)
  | entry (entry : Option (TokenCacheEntry τ))
  | present (present : Bool)
deriving DecidableEq

/-- What a backend answers for a key that it holds this for. -/
def ReadKind.reply (kind : ReadKind) (value : Option (TokenCacheEntry τ)) : Reply τ :=
  match kind with
  | .get => .entry value
  | .has => .present value.isSome

inductive ReadStage (τ : Type)
  | checking (check : Check)
  | primary
  | settled (reply : Option (Reply τ))
  | fallback
  | returned (reply : Reply τ)
deriving DecidableEq

/-- The promise of a recovery settles. -/
def Check.resolve (usable : Bool) : Check → Check
  | .joined => .answered usable
  | .owning => .owned usable
  | check => check

/-- The owner of a recovery goes on. -/
def Check.release : Check → Check
  | .owned usable => .answered usable
  | check => check

def MutationStage.mapCheck (f : Check → Check) : MutationStage → MutationStage
  | .checking check => .checking (f check)
  | stage => stage

def ReadStage.mapCheck (f : Check → Check) : ReadStage τ → ReadStage τ
  | .checking check => .checking (f check)
  | stage => stage

structure Read (τ : Type) where
  kind : ReadKind
  key : Text
  stage : ReadStage τ
  /-- No mutation was or came under way since the read began. No code reads it. -/
  quiet : Bool

/-- The owner of a recovery is the call that stands at `owning`. An operation of the replay bears the stamp of what it replays. -/
inductive RecoveryStage (τ : Type)
  | probing
  | clearing
  | cleared (ok : Bool)
  | replaying (stamp : Nat) (key : Text) (operation : PendingMutation τ)
  | stepped (stamp : Nat) (ok : Bool)
  | replayed
  | failing
  | resolved (usable : Bool)
deriving DecidableEq

/-- The entries of `pendingMutations` bear stamps in the order of their insertion. -/
structure Pending (τ : Type) where
  stamp : Nat
  key : Text
  mutation : PendingMutation τ

structure ResilientCache (τ : Type) where
  state : CircuitState
  failureCount : Nat
  circuitOpenedAt : Option τ
  recoveryPromise : Option (RecoveryStage τ)
  pendingMutations : List (Pending τ)
  pendingClear : Bool
  stamps : Nat
  queue : List (Mutation τ)
  running : Option (Mutation τ × MutationStage)
  reads : Nat → Option (Read τ)
  calls : Nat
  primary : Contents τ
  fallback : Contents τ
  /-- The mutations that were acknowledged, those of expired entries as deletions. No code reads this, or what stands below. -/
  acknowledged : List (Mutation τ)
  wallReadings : List τ
  /-- The keys that an overflow has met since their last mutation. -/
  dropped : Text → Bool

inductive Action (τ : Type)
  | enqueue (mutation : Mutation τ)
  | begin (wallNow : τ)
  | settleFallback
  | check (now : τ)
  | resume
  | settlePrimary (outcome : Outcome)
  | complete (now : τ)
  | read (kind : ReadKind) (key : Text) (now : τ)
  | resumeRead (read : Nat)
  | settleRead (read : Nat) (ok : Bool)
  | completeRead (read : Nat) (now : τ)
  | settleReadFallback (read : Nat)
  | probe (ok : Bool) (now wallNow : τ)
  | settleClear (outcome : Outcome)
  | resumeClear (wallNow : τ)
  | settleReplay (outcome : Outcome)
  | resumeReplay (wallNow : τ)
  | finish (now : τ)
  | release
deriving DecidableEq

namespace ResilientCache

def initial : ResilientCache τ where
  state := .closed
  failureCount := 0
  circuitOpenedAt := none
  recoveryPromise := none
  pendingMutations := []
  pendingClear := false
  stamps := 0
  queue := []
  running := none
  reads _ := none
  calls := 0
  primary _ := none
  fallback _ := none
  acknowledged := []
  wallReadings := []
  dropped _ := false

variable (cache : ResilientCache τ)

/-! ## The circuit -/

def recordReadSuccess : ResilientCache τ :=
  if cache.state ≠ .closed then cache else { cache with failureCount := 0 }

def openCircuit (now : τ) : ResilientCache τ := { cache with state := .open, circuitOpenedAt := some now }

def recordReadFailure (options : ResilientCacheOptions τ) (now : τ) : ResilientCache τ :=
  let counted := { cache with failureCount := cache.failureCount + 1 }
  if options.failureThreshold ≤ counted.failureCount then counted.openCircuit now else counted

def recordMutationSuccess (key : Text) : ResilientCache τ :=
  { cache with pendingMutations := cache.pendingMutations.filter (·.key ≠ key) }.recordReadSuccess

def recordMutationFailure (options : ResilientCacheOptions τ) (now : τ) : ResilientCache τ :=
  { cache with failureCount := max (cache.failureCount + 1) options.failureThreshold }.openCircuit now

/-! ## What is remembered -/

def overflows (key : Text) : Bool :=
  cache.pendingMutations.all (·.key ≠ key) && decide (maxPendingMutations ≤ cache.pendingMutations.length)

def rememberMutation (key : Text) (mutation : PendingMutation τ) : ResilientCache τ :=
  let kept := if cache.overflows key then [] else cache.pendingMutations.filter (·.key ≠ key)
  { cache with
    pendingClear := cache.pendingClear || cache.overflows key
    pendingMutations := kept ++ [⟨cache.stamps + 1, key, mutation⟩]
    stamps := cache.stamps + 1
    dropped := fun other => if other = key then cache.dropped key else cache.dropped other || cache.overflows key }

def rememberClear : ResilientCache τ := { cache with pendingClear := true, pendingMutations := [] }

def remember : Mutation τ → ResilientCache τ
  | .set key entry => cache.rememberMutation key (.set entry)
  | .delete key => cache.rememberMutation key .delete
  | .clear => cache.rememberClear

/-! ## Whether the primary is used -/

section Clock

variable [Sub τ] [LT τ] [DecidableLT τ] [LE τ] [DecidableLE τ]

/-- A call that finds a recovery joins it, and one that finds the circuit open long enough starts one. -/
def canUsePrimary (options : ResilientCacheOptions τ) (now : τ) : Check × ResilientCache τ :=
  if cache.state = .closed then (.answered true, cache)
  else
    match cache.recoveryPromise with
    | some (.resolved usable) => (.answered usable, cache)
    | some _ => (.joined, cache)
    | none =>
      if cache.state = .open ∧ now - cache.circuitOpenedAt.getD now < options.openDurationMs then (.answered false, cache)
      else (.owning, { cache with state := .halfOpen, recoveryPromise := some .probing })

end Clock

def mapChecks (f : Check → Check) : ResilientCache τ :=
  { cache with
    running := cache.running.map fun (mutation, stage) => (mutation, stage.mapCheck f)
    reads := fun read => (cache.reads read).map fun entry => { entry with stage := entry.stage.mapCheck f } }

def resolveRecovery (usable : Bool) : ResilientCache τ :=
  { cache.mapChecks (Check.resolve usable) with recoveryPromise := some (.resolved usable) }

def failRecovery (options : ResilientCacheOptions τ) (now : τ) : ResilientCache τ :=
  { cache with
    state := .open
    failureCount := max cache.failureCount options.failureThreshold
    circuitOpenedAt := some now }.resolveRecovery false

/-! ## Replaying -/

section Wall

variable [LE τ] [DecidableLE τ]

def continueReplay (stamp : Nat) (wallNow : τ) : ResilientCache τ :=
  match cache.pendingMutations.find? (stamp < ·.stamp) with
  | none => { cache with pendingClear := false, pendingMutations := [], recoveryPromise := some .replayed }
  | some ⟨next, key, .set entry⟩ =>
    { cache with
      wallReadings := cache.wallReadings ++ [wallNow]
      recoveryPromise := some (.replaying next key (if entry.expiresAt ≤ wallNow then .delete else .set entry)) }
  | some ⟨next, key, .delete⟩ => { cache with recoveryPromise := some (.replaying next key .delete) }

end Wall

/-! ## Mutations -/

/-- A full queue refuses. -/
def enqueue (mutation : Mutation τ) : ResilientCache τ :=
  if maxQueuedMutations ≤ cache.queue.length + cache.running.toList.length then cache
  else
    { cache with
      queue := cache.queue ++ [mutation]
      reads := fun read => (cache.reads read).map fun entry => { entry with quiet := false } }

def done (mutation : Mutation τ) : ResilientCache τ :=
  { cache with running := none, acknowledged := cache.acknowledged ++ [mutation] }

/-- What follows a mutation of the primary. -/
def recordCompletion (mutation : Mutation τ) : ResilientCache τ :=
  match mutation with
  | .set key _ | .delete key => cache.recordMutationSuccess key
  | .clear => { cache with pendingClear := false, pendingMutations := [] }.recordReadSuccess

section Clocks

variable [Sub τ] [LT τ] [DecidableLT τ] [LE τ] [DecidableLE τ]

/-- An entry that has expired is deleted. -/
def begin (wallNow : τ) : Option (ResilientCache τ) :=
  match cache.running, cache.queue with
  | none, .set key entry :: queue =>
    some { cache with
      queue := queue
      running := some (if entry.expiresAt ≤ wallNow then .delete key else .set key entry, .fallback)
      wallReadings := cache.wallReadings ++ [wallNow] }
  | none, mutation :: queue => some { cache with queue := queue, running := some (mutation, .fallback) }
  | _, _ => none

/-- `none` where the action cannot happen. -/
def step (options : ResilientCacheOptions τ) : Action τ → Option (ResilientCache τ)
  | .enqueue mutation => some (cache.enqueue mutation)
  | .begin wallNow => cache.begin wallNow
  | .settleFallback =>
    match cache.running with
    | some (mutation, .fallback) =>
      some { cache with
        fallback := mutation.apply cache.fallback
        dropped := fun key => if mutation.touches key then false else cache.dropped key
        running := some (mutation, .applied) }
    | _ => none
  | .check now =>
    match cache.running with
    | some (mutation, .applied) =>
      let (check, checked) := cache.canUsePrimary options now
      some { checked with running := some (mutation, .checking check) }
    | _ => none
  | .resume =>
    match cache.running with
    | some (mutation, .checking (.answered true)) => some { cache with running := some (mutation, .primary) }
    | some (mutation, .checking (.answered false)) => some ((cache.remember mutation).done mutation)
    | _ => none
  | .settlePrimary outcome =>
    match cache.running with
    | some (mutation, .primary) =>
      some { cache with
        primary := if outcome.applied then mutation.apply cache.primary else cache.primary
        running := some (mutation, .settled (outcome = .ok)) }
    | _ => none
  | .complete now =>
    match cache.running with
    | some (mutation, .settled true) => some ((cache.recordCompletion mutation).done mutation)
    | some (mutation, .settled false) => some (((cache.remember mutation).recordMutationFailure options now).done mutation)
    | _ => none
  | .read kind key now =>
    let (check, checked) := cache.canUsePrimary options now
    some { checked with
      reads := update checked.reads cache.calls
        (some ⟨kind, key, .checking check, decide (cache.queue = [] ∧ cache.running = none)⟩)
      calls := cache.calls + 1 }
  | .resumeRead read =>
    match cache.reads read with
    | some ⟨kind, key, .checking (.answered true), quiet⟩ =>
      some { cache with reads := update cache.reads read (some ⟨kind, key, .primary, quiet⟩) }
    | some ⟨kind, key, .checking (.answered false), quiet⟩ =>
      some { cache with reads := update cache.reads read (some ⟨kind, key, .fallback, quiet⟩) }
    | _ => none
  | .settleRead read ok =>
    match cache.reads read with
    | some ⟨kind, key, .primary, quiet⟩ =>
      some { cache with
        reads := update cache.reads read
          (some ⟨kind, key, .settled (if ok then some (kind.reply (cache.primary key)) else none), quiet⟩) }
    | _ => none
  | .completeRead read now =>
    match cache.reads read with
    | some ⟨kind, key, .settled (some reply), quiet⟩ =>
      some { cache.recordReadSuccess with reads := update cache.reads read (some ⟨kind, key, .returned reply, quiet⟩) }
    | some ⟨kind, key, .settled none, quiet⟩ =>
      some { cache.recordReadFailure options now with reads := update cache.reads read (some ⟨kind, key, .fallback, quiet⟩) }
    | _ => none
  | .settleReadFallback read =>
    match cache.reads read with
    | some ⟨kind, key, .fallback, quiet⟩ =>
      some { cache with reads := update cache.reads read (some ⟨kind, key, .returned (kind.reply (cache.fallback key)), quiet⟩) }
    | _ => none
  | .probe ok now wallNow =>
    match cache.recoveryPromise with
    | some .probing =>
      some (if ¬ ok then cache.failRecovery options now
        else if cache.pendingClear then { cache with recoveryPromise := some .clearing }
        else cache.continueReplay 0 wallNow)
    | _ => none
  | .settleClear outcome =>
    match cache.recoveryPromise with
    | some .clearing =>
      some { cache with
        primary := if outcome.applied then fun _ => none else cache.primary
        recoveryPromise := some (.cleared (outcome = .ok)) }
    | _ => none
  | .resumeClear wallNow =>
    match cache.recoveryPromise with
    | some (.cleared true) => some (cache.continueReplay 0 wallNow)
    | some (.cleared false) => some { cache with recoveryPromise := some .failing }
    | _ => none
  | .settleReplay outcome =>
    match cache.recoveryPromise with
    | some (.replaying stamp key operation) =>
      some { cache with
        primary := if outcome.applied then update cache.primary key operation.value else cache.primary
        recoveryPromise := some (.stepped stamp (outcome = .ok)) }
    | _ => none
  | .resumeReplay wallNow =>
    match cache.recoveryPromise with
    | some (.stepped stamp true) => some (cache.continueReplay stamp wallNow)
    | some (.stepped _ false) => some { cache with recoveryPromise := some .failing }
    | _ => none
  | .finish now =>
    match cache.recoveryPromise with
    | some .replayed =>
      some ({ cache with state := .closed, failureCount := 0, circuitOpenedAt := none }.resolveRecovery true)
    | some .failing => some (cache.failRecovery options now)
    | _ => none
  | .release =>
    match cache.recoveryPromise with
    | some (.resolved _) => some { cache.mapChecks Check.release with recoveryPromise := none }
    | _ => none

end Clocks

end ResilientCache

end Veryfront.Proxy.Resilient
