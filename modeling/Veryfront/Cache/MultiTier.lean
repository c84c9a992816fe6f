import Veryfront.Lib.OrdMap
import Mathlib.Algebra.Order.Ring.Rat

/-!
# The multi-tier cache

Up to three tiers are asked in turn; a hit in a lower tier is written back to the higher ones before the
reader gets its answer. The calls in flight share the tiers, and every operation on a tier takes effect
at one moment between its start and its end, so a step of the model is one operation on one tier.
Backfills are awaited, and no operation on a tier fails.
-/

namespace Veryfront.Cache

open Lib

/-! ## Tiers and configuration -/

inductive TierName
  | l1
  | l2
  | l3
deriving DecidableEq

/-- Which of the optional operations a tier implements. -/
structure CacheTier where
  getRemainingTtlSeconds : Bool
  delete : Bool
  getBatch : Bool

structure MultiTierCacheConfig where
  l1 : Option CacheTier
  l2 : Option CacheTier
  l3 : Option CacheTier
  defaultTtlSeconds : Rat := 300
  backfillOnHit : Bool := true

def MultiTierCacheConfig.tier (config : MultiTierCacheConfig) : TierName → Option CacheTier
  | .l1 => config.l1
  | .l2 => config.l2
  | .l3 => config.l3

structure CacheEntry (V : Type) where
  value : V
  ttl : Rat

/-! ## Calls -/

variable {κ V : Type}

inductive CacheOp (κ V : Type)
  | get (key : κ)
  | getBatch (keys : List κ)
  | set (key : κ) (value : V) (ttlSeconds : Option Rat)
  | delete (key : κ)

/-- What a tier answered, with the sets and deletes of the key it had taken by then. -/
structure TierAnswer (V : Type) where
  value : Option V
  seen : List Nat

inductive BackfillStage
  | lookup
  | writing (ttl : Rat) (left : List TierName)
  | skipped

structure Backfill (κ V : Type) where
  key : κ
  value : V
  tiers : List TierName
  source : TierName
  seen : List Nat
  stage : BackfillStage

def Backfill.settled (b : Backfill κ V) : Bool :=
  match b.stage with
  | .lookup => false
  | .writing _ left => left.isEmpty
  | .skipped => true

/-- A batch that asks `tier`; the tiers in `rest` follow. -/
structure BatchRead (κ V : Type) where
  tier : TierName
  rest : List TierName
  asked : List (κ × Option (TierAnswer V))
  results : OrdMap κ (Option V)

inductive CachePhase (κ V : Type)
  | getting (tiers : List TierName)
  | answered (value : Option V)
  | batching (batch : BatchRead κ V)
  | batchAnswered (results : OrdMap κ (Option V))
  | setting (left : List TierName)
  | settingL3
  | deleting (left : List TierName)
  | resolved

structure CacheCall (κ V : Type) where
  op : CacheOp κ V
  phase : CachePhase κ V
  backfills : List (Backfill κ V) := []

/-- A get returns once the backfill it started has settled. -/
def CacheCall.answer (call : CacheCall κ V) : Option (Option V) :=
  match call.phase with
  | .answered value => if call.backfills.all Backfill.settled then some value else none
  | _ => none

def CacheCall.batchAnswer (call : CacheCall κ V) : Option (OrdMap κ (Option V)) :=
  match call.phase with
  | .batchAnswered results => if call.backfills.all Backfill.settled then some results else none
  | _ => none

/-! ## The cache -/

/-- `applied` is history: the sets and deletes of a key that have taken effect in a tier. -/
structure MultiTierCache (κ V : Type) where
  tiers : TierName → κ → Option (CacheEntry V)
  calls : Nat → Option (CacheCall κ V)
  applied : TierName → κ → List Nat

namespace MultiTierCache

def fresh (tiers : TierName → κ → Option (CacheEntry V)) : MultiTierCache κ V where
  tiers := tiers
  calls := fun _ => none
  applied := fun _ _ => []

def ask (s : MultiTierCache κ V) (t : TierName) (key : κ) : TierAnswer V where
  value := (s.tiers t key).map CacheEntry.value
  seen := s.applied t key

def setCall (s : MultiTierCache κ V) (p : Nat) (call : CacheCall κ V) : MultiTierCache κ V :=
  { s with calls := Function.update s.calls p (some call) }

variable [DecidableEq κ]

def store (s : MultiTierCache κ V) (t : TierName) (key : κ) (entry : Option (CacheEntry V)) : MultiTierCache κ V :=
  { s with tiers := fun t' key' => if t' = t ∧ key' = key then entry else s.tiers t' key' }

/-- Call `p` sets or deletes the key in one tier. -/
def apply (s : MultiTierCache κ V) (p : Nat) (t : TierName) (key : κ) (entry : Option (CacheEntry V)) :
    MultiTierCache κ V :=
  { s.store t key entry with
    applied := fun t' key' => if t' = t ∧ key' = key then p :: s.applied t' key' else s.applied t' key' }

end MultiTierCache

/-! ## Backfill -/

namespace MultiTierCacheConfig

variable (config : MultiTierCacheConfig)

def backfillTargets (tiers : List TierName) : List TierName :=
  [.l1, .l2].filter fun t => t ∈ tiers ∧ (config.tier t).isSome

def backfill (key : κ) (value : V) (tiers : List TierName) (source : TierName) (seen : List Nat) :
    Option (Backfill κ V) :=
  if config.backfillOnHit then
    some { key, value, tiers, source, seen
           stage := if (config.tier source).any CacheTier.getRemainingTtlSeconds then .lookup
             else .writing config.defaultTtlSeconds (config.backfillTargets tiers) }
  else none

/-- The remaining time of the source's entry bounds that of the copy; without one nothing is copied. -/
def afterRemainingTtl (tiers : List TierName) (remaining : Option Rat) : BackfillStage :=
  match remaining with
  | none => .skipped
  | some remaining =>
    if remaining ≤ 0 then .skipped
    else .writing (min remaining config.defaultTtlSeconds) (config.backfillTargets tiers)

/-- The backfill a hit in `t` starts. -/
def onHit (t : TierName) (key : κ) (value : V) (seen : List Nat) : List (Backfill κ V) :=
  match t with
  | .l1 => []
  | .l2 => (config.backfill key value [.l1] .l2 seen).toList
  | .l3 => (config.backfill key value [.l1, .l2] .l3 seen).toList

/-! ## `get` -/

def getNext : List TierName → CachePhase κ V
  | [] => .answered none
  | t :: ts => .getting (t :: ts)

/-- The call after its next tier `t` answered; a tier that is not configured has nothing. -/
def getFromTier (s : MultiTierCache κ V) (key : κ) (t : TierName) (ts : List TierName) (call : CacheCall κ V) :
    CacheCall κ V :=
  match config.tier t with
  | none => { call with phase := getNext ts }
  | some _ =>
    match (s.ask t key).value with
    | none => { call with phase := getNext ts }
    | some v => { call with phase := .answered (some v), backfills := config.onHit t key v (s.ask t key).seen }

/-! ## `getBatch` -/

variable [DecidableEq κ]

def batchNext (remaining : List κ) (results : OrdMap κ (Option V)) : List TierName → CachePhase κ V
  | [] => .batchAnswered (remaining.foldl (fun m k => if m.contains k then m else m.set k none) results)
  | t :: ts =>
    if (config.tier t).isSome ∧ remaining ≠ [] then
      .batching { tier := t, rest := ts, asked := remaining.map fun k => (k, none), results }
    else batchNext remaining results ts

/-- The keyed results of a tier: for a key asked twice the later answer counts. -/
def tierResults (asked : List (κ × Option (TierAnswer V))) : OrdMap κ (TierAnswer V) :=
  asked.foldl (fun m e => match e.2 with | some a => m.set e.1 a | none => m) .empty

def batchResults (batch : BatchRead κ V) : OrdMap κ (Option V) :=
  (tierResults batch.asked).entries.foldl (fun m e =>
    match batch.tier, e.2.value with
    | _, some v => m.set e.1 (some v)
    | .l3, none => m.set e.1 none
    | _, none => m) batch.results

def batchBackfills (batch : BatchRead κ V) : List (Backfill κ V) :=
  (tierResults batch.asked).entries.flatMap fun e =>
    match e.2.value with
    | some v => config.onHit batch.tier e.1 v e.2.seen
    | none => []

def batchRemaining (batch : BatchRead κ V) : List κ :=
  let keys := batch.asked.map Prod.fst
  match batch.tier with
  | .l3 => keys
  | _ => keys.filter fun k => ((batchResults batch).get? k).join.isNone

def batchCollect (batch : BatchRead κ V) (call : CacheCall κ V) : CacheCall κ V :=
  { call with
    phase := config.batchNext (batchRemaining batch) (batchResults batch) batch.rest
    backfills := call.backfills ++ config.batchBackfills batch }

/-! ## `set` and `delete` -/

/-- The tiers of this process first, then the shared one. -/
def setNext : List TierName → CachePhase κ V
  | [] => if config.l3.isSome then .settingL3 else .resolved
  | t :: ts => .setting (t :: ts)

def deleteNext : List TierName → CachePhase κ V
  | [] => .resolved
  | t :: ts => .deleting (t :: ts)

def start : CacheOp κ V → CachePhase κ V
  | .get _ => .getting [.l1, .l2, .l3]
  | .getBatch keys => if keys = [] then .batchAnswered .empty else config.batchNext keys .empty [.l1, .l2, .l3]
  | .set _ _ _ => config.setNext ([.l1, .l2].filter fun t => (config.tier t).isSome)
  | .delete _ => deleteNext ([.l1, .l2, .l3].filter fun t => (config.tier t).any CacheTier.delete)

end MultiTierCacheConfig

/-! ## Steps -/

inductive CacheAction (κ V : Type)
  | call (p : Nat) (op : CacheOp κ V)
  | get (p : Nat)
  | batchGet (p i : Nat)
  | batchGetAll (p : Nat)
  | batchCollect (p : Nat)
  | write (p : Nat) (t : TierName)
  | remainingTtl (p j : Nat) (remaining : Option Rat)
  | backfillSet (p j : Nat) (t : TierName)

def CacheAction.of : CacheAction κ V → Nat
  | .call p _ => p
  | .get p => p
  | .batchGet p _ => p
  | .batchGetAll p => p
  | .batchCollect p => p
  | .write p _ => p
  | .remainingTtl p _ _ => p
  | .backfillSet p _ _ => p

namespace MultiTierCache

variable [DecidableEq κ] (config : MultiTierCacheConfig) (s : MultiTierCache κ V)

def stepGet (p : Nat) (call : CacheCall κ V) : Option (MultiTierCache κ V) :=
  match call.op, call.phase with
  | .get key, .getting (t :: ts) => some (s.setCall p (config.getFromTier s key t ts call))
  | _, _ => none

/-- A tier without a batch read is asked for each key by itself. -/
def stepBatchGet (p i : Nat) (call : CacheCall κ V) : Option (MultiTierCache κ V) :=
  match call.phase with
  | .batching batch =>
    if (config.tier batch.tier).any CacheTier.getBatch then none
    else match batch.asked[i]? with
      | some (k, none) =>
        some (s.setCall p { call with
          phase := .batching { batch with asked := batch.asked.set i (k, some (s.ask batch.tier k)) } })
      | _ => none
  | _ => none

def stepBatchGetAll (p : Nat) (call : CacheCall κ V) : Option (MultiTierCache κ V) :=
  match call.phase with
  | .batching batch =>
    if (config.tier batch.tier).any CacheTier.getBatch ∧ batch.asked.all (·.2.isNone) then
      some (s.setCall p { call with
        phase := .batching { batch with asked := batch.asked.map fun e => (e.1, some (s.ask batch.tier e.1)) } })
    else none
  | _ => none

def stepBatchCollect (p : Nat) (call : CacheCall κ V) : Option (MultiTierCache κ V) :=
  match call.phase with
  | .batching batch =>
    if batch.asked.all (·.2.isSome) then some (s.setCall p (config.batchCollect batch call)) else none
  | _ => none

def stepWrite (p : Nat) (t : TierName) (call : CacheCall κ V) : Option (MultiTierCache κ V) :=
  match call.op, call.phase with
  | .set key value ttlSeconds, .setting left =>
    if t ∈ left then
      some ((s.apply p t key (some ⟨value, ttlSeconds.getD config.defaultTtlSeconds⟩)).setCall p
        { call with phase := config.setNext (left.erase t) })
    else none
  | .set key value ttlSeconds, .settingL3 =>
    if t = .l3 then
      some ((s.apply p t key (some ⟨value, ttlSeconds.getD config.defaultTtlSeconds⟩)).setCall p
        { call with phase := .resolved })
    else none
  | .delete key, .deleting left =>
    if t ∈ left then
      some ((s.apply p t key none).setCall p { call with phase := MultiTierCacheConfig.deleteNext (left.erase t) })
    else none
  | _, _ => none

/-- A tier reports a time only for an entry it has. -/
def stepRemainingTtl (p j : Nat) (remaining : Option Rat) (call : CacheCall κ V) : Option (MultiTierCache κ V) :=
  match call.backfills[j]? with
  | some b =>
    match b.stage with
    | .lookup =>
      if (s.tiers b.source b.key).isNone ∧ remaining.isSome then none
      else some (s.setCall p { call with
        backfills := call.backfills.set j { b with stage := config.afterRemainingTtl b.tiers remaining } })
    | _ => none
  | none => none

def stepBackfillSet (p j : Nat) (t : TierName) (call : CacheCall κ V) : Option (MultiTierCache κ V) :=
  match call.backfills[j]? with
  | some b =>
    match b.stage with
    | .writing ttl left =>
      if t ∈ left then
        some ((s.store t b.key (some ⟨b.value, ttl⟩)).setCall p { call with
          backfills := call.backfills.set j { b with stage := .writing ttl (left.erase t) } })
      else none
    | _ => none
  | none => none

def step : CacheAction κ V → Option (MultiTierCache κ V)
  | .call p op =>
    match s.calls p with
    | none => some (s.setCall p { op, phase := config.start op })
    | some _ => none
  | .get p => (s.calls p).bind (s.stepGet config p)
  | .batchGet p i => (s.calls p).bind (s.stepBatchGet config p i)
  | .batchGetAll p => (s.calls p).bind (s.stepBatchGetAll config p)
  | .batchCollect p => (s.calls p).bind (s.stepBatchCollect config p)
  | .write p t => (s.calls p).bind (s.stepWrite config p t)
  | .remainingTtl p j remaining => (s.calls p).bind (s.stepRemainingTtl config p j remaining)
  | .backfillSet p j t => (s.calls p).bind (s.stepBackfillSet p j t)

end MultiTierCache

end Veryfront.Cache
