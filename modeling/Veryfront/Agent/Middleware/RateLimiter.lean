import Mathlib.Algebra.Order.Floor.Ring
import Mathlib.Data.Rat.Floor
import Mathlib.Logic.Function.Basic

/-!
# Rate limiters

Every identifier has an entry of its own: a window that counts its calls, or a bucket of tokens that is refilled as time
goes by. Amounts of tokens are rational numbers, times are milliseconds.
-/

namespace Veryfront.Agent.RateLimit

inductive Strategy
  | fixedWindow
  | slidingWindow
  | tokenBucket
deriving DecidableEq

structure RateLimitConfig where
  strategy : Strategy
  maxRequests : Nat
  windowMs : Nat

structure RateLimitResult where
  allowed : Bool
  remaining : Int
  resetAt : Int
  retryAfter : Option Int := none
deriving DecidableEq

/-! ## The two limiters -/

/-- What is kept of an identifier, and how a call at a time is answered. -/
structure Limiter where
  Entry : Type
  check : (now : Int) → Option Entry → Entry × RateLimitResult

structure Window where
  count : Nat
  resetAt : Int

structure Bucket where
  tokens : ℚ
  lastRefill : Int

variable (config : RateLimitConfig)

namespace FixedWindowLimiter

def openWindow (now : Int) : Window × RateLimitResult :=
  (⟨1, now + config.windowMs⟩, { allowed := true, remaining := config.maxRequests - 1, resetAt := now + config.windowMs })

def check (now : Int) : Option Window → Window × RateLimitResult
  | none => openWindow config now
  | some entry =>
    if entry.resetAt ≤ now then openWindow config now
    else if config.maxRequests ≤ entry.count then
      (entry, { allowed := false, remaining := 0, resetAt := entry.resetAt, retryAfter := some ⌈((entry.resetAt - now : Int) : ℚ) / 1000⌉ })
    else
      ({ entry with count := entry.count + 1 },
        { allowed := true, remaining := config.maxRequests - (entry.count + 1), resetAt := entry.resetAt })

end FixedWindowLimiter

namespace TokenBucketLimiter

def refillRate : ℚ := config.maxRequests / config.windowMs

/-- The tokens after the time that has passed. -/
def refill (now : Int) (bucket : Bucket) : ℚ :=
  min config.maxRequests (bucket.tokens + (now - bucket.lastRefill : Int) * refillRate config)

def check (now : Int) : Option Bucket → Bucket × RateLimitResult
  | none =>
    (⟨config.maxRequests - 1, now⟩, { allowed := true, remaining := config.maxRequests - 1, resetAt := now + config.windowMs })
  | some bucket =>
    let tokens := refill config now bucket
    if tokens < 1 then
      (⟨tokens, now⟩, { allowed := false, remaining := 0, resetAt := now + config.windowMs,
                        retryAfter := some ⌈(1 - tokens) / refillRate config / 1000⌉ })
    else
      (⟨tokens - 1, now⟩, { allowed := true, remaining := ⌊tokens - 1⌋, resetAt := now + config.windowMs })

end TokenBucketLimiter

def createLimiterByStrategy : Limiter :=
  if config.strategy = .fixedWindow then ⟨Window, FixedWindowLimiter.check config⟩
  else ⟨Bucket, TokenBucketLimiter.check config⟩

/-! ## Runs -/

inductive Event (ι : Type)
  | check (identifier : ι) (now : Int)
  | reset (identifier : ι)
  | clear

/-- A call, and how it was answered. -/
structure Call where
  now : Int
  result : RateLimitResult
deriving DecidableEq

variable {ι : Type} [DecidableEq ι] (limiter : Limiter)

/-- The entries, and beside them the calls that each identifier has made since it was last reset. -/
structure Service (ι : Type) where
  entries : ι → Option limiter.Entry
  history : ι → List Call

def start : Service limiter ι := ⟨fun _ => none, fun _ => []⟩

def Service.set (service : Service limiter ι) (identifier : ι) (entry : Option limiter.Entry) (calls : List Call) :
    Service limiter ι :=
  ⟨Function.update service.entries identifier entry, Function.update service.history identifier calls⟩

def step (service : Service limiter ι) : Event ι → Service limiter ι
  | .check identifier now =>
    let (entry, result) := limiter.check now (service.entries identifier)
    service.set limiter identifier (some entry) (service.history identifier ++ [⟨now, result⟩])
  | .reset identifier => service.set limiter identifier none []
  | .clear => start limiter

def run (events : List (Event ι)) : Service limiter ι := events.foldl (step limiter) (start limiter)

def Event.time? : Event ι → Option Int
  | .check _ now => some now
  | _ => none

/-- The clock does not go back. -/
def Steady (events : List (Event ι)) : Prop := (events.filterMap Event.time?).Pairwise (· ≤ ·)

def Event.concerns (identifier : ι) : Event ι → Bool
  | .check other _ => other = identifier
  | .reset other => other = identifier
  | .clear => true

/-! ## What the limits say -/

/-- The calls that were let through from one time on, up to another one. -/
def admitted (calls : List Call) (since before : Int) : Nat :=
  calls.countP fun call => call.result.allowed ∧ since ≤ call.now ∧ call.now < before

/-- A window lets no more calls through than the limit, and refuses one only when it is full. -/
structure WindowsHold (calls : List Call) : Prop where
  inside : ∀ call ∈ calls, call.result.resetAt - config.windowMs ≤ call.now ∧ call.now < call.result.resetAt
  limit : ∀ call ∈ calls, admitted calls (call.result.resetAt - config.windowMs) call.result.resetAt ≤ config.maxRequests
  full : ∀ before call after, calls = before ++ call :: after → call.result.allowed = false →
    admitted before (call.result.resetAt - config.windowMs) call.result.resetAt = config.maxRequests

/-- In any interval, both ends included, the limit is passed by no more than the share of the interval in a window. -/
def RateHolds (calls : List Call) : Prop :=
  ∀ first last : Int, first ≤ last →
    (admitted calls first (last + 1) : ℚ) ≤ config.maxRequests + (last - first) * config.maxRequests / config.windowMs

/-- An interval shorter than a window lets no more calls through than the limit. -/
def SlidingHolds (calls : List Call) : Prop :=
  ∀ first last : Int, first ≤ last → last - first < config.windowMs → admitted calls first (last + 1) ≤ config.maxRequests

/-- A refused call says after how many seconds the next one is let through. -/
def RetriesHold (calls : List Call) : Prop :=
  ∀ before call after, calls = before ++ call :: after → call.result.allowed = false →
    ∃ seconds, call.result.retryAfter = some seconds ∧
      ∀ next ∈ after.head?, call.now + 1000 * seconds ≤ next.now → next.result.allowed = true

/-- What each strategy promises of the calls of an identifier since it was last reset. -/
def LimitHolds (calls : List Call) : Prop :=
  match config.strategy with
  | .fixedWindow => WindowsHold config calls
  | .tokenBucket => RateHolds config calls
  | .slidingWindow => SlidingHolds config calls

def LimitsHold : Prop :=
  ∀ (ι : Type) [DecidableEq ι] (events : List (Event ι)), Steady events → ∀ identifier : ι,
    let calls := (run (createLimiterByStrategy config) events).history identifier
    LimitHolds config calls ∧ RetriesHold calls ∧
      (run (createLimiterByStrategy config) (events.filter (Event.concerns identifier))).history identifier = calls

end Veryfront.Agent.RateLimit
