import Mathlib.Data.List.Induction
import Mathlib.Tactic.Linarith
import Mathlib.Tactic.Positivity
import Veryfront.Agent.Middleware.RateLimiter

/-!
# Rate limits hold

What an identifier is answered depends on the times of its own calls only. Windows keep their limit, and buckets keep it
up to the share of time that has passed; that is more than a sliding window would let through.
-/

namespace Veryfront.Agent.RateLimit

/-! ## The calls of one identifier -/

section Solo

variable {limiter : Limiter}

def entryAfter (limiter : Limiter) : Option limiter.Entry → List Int → Option limiter.Entry
  | entry, [] => entry
  | entry, now :: times => entryAfter limiter (some (limiter.check now entry).1) times

def answers (limiter : Limiter) : Option limiter.Entry → List Int → List Call
  | _, [] => []
  | entry, now :: times => ⟨now, (limiter.check now entry).2⟩ :: answers limiter (some (limiter.check now entry).1) times

theorem entryAfter_snoc (entry : Option limiter.Entry) (times : List Int) (now : Int) :
    entryAfter limiter entry (times ++ [now]) = some (limiter.check now (entryAfter limiter entry times)).1 := by
  induction times generalizing entry with
  | nil => rfl
  | cons time times ih => exact ih _

theorem answers_snoc (entry : Option limiter.Entry) (times : List Int) (now : Int) :
    answers limiter entry (times ++ [now]) =
      answers limiter entry times ++ [⟨now, (limiter.check now (entryAfter limiter entry times)).2⟩] := by
  induction times generalizing entry with
  | nil => rfl
  | cons time times ih => exact congrArg _ (ih _)

theorem answers_now (entry : Option limiter.Entry) (times : List Int) :
    (answers limiter entry times).map Call.now = times := by
  induction times generalizing entry with
  | nil => rfl
  | cons now times ih => exact congrArg _ (ih _)

theorem answers_invariant {P : List Call → limiter.Entry → Prop}
    (hopen : ∀ now, P [⟨now, (limiter.check now none).2⟩] (limiter.check now none).1)
    (hcheck : ∀ calls entry now, P calls entry → (∀ call ∈ calls, call.now ≤ now) →
      P (calls ++ [⟨now, (limiter.check now (some entry)).2⟩]) (limiter.check now (some entry)).1)
    (times : List Int) (hsorted : times.Pairwise (· ≤ ·)) :
    times = [] ∨ ∃ entry, entryAfter limiter none times = some entry ∧ P (answers limiter none times) entry := by
  induction times using List.reverseRecOn with
  | nil => exact .inl rfl
  | append_singleton times now ih =>
    obtain ⟨hbefore, -, hle⟩ := List.pairwise_append.mp hsorted
    refine .inr ⟨_, entryAfter_snoc none times now, ?_⟩
    rw [answers_snoc]
    rcases ih hbefore with rfl | ⟨entry, hentry, hP⟩
    · exact hopen now
    · rw [hentry]
      refine hcheck _ entry now hP fun call hcall => hle _ ?_ now (List.mem_singleton_self now)
      rw [← answers_now none times]
      exact List.mem_map_of_mem hcall

variable {ι : Type} [DecidableEq ι] (identifier : ι)

def timesStep (times : List Int) : Event ι → List Int
  | .check other now => if other = identifier then times ++ [now] else times
  | .reset other => if other = identifier then [] else times
  | .clear => []

def timesOf (events : List (Event ι)) : List Int := events.foldl (timesStep identifier) []

theorem timesOf_snoc (events : List (Event ι)) (event : Event ι) :
    timesOf identifier (events ++ [event]) = timesStep identifier (timesOf identifier events) event := by
  rw [timesOf, List.foldl_append]
  rfl

theorem run_alone (events : List (Event ι)) :
    (run limiter events).entries identifier = entryAfter limiter none (timesOf identifier events) ∧
      (run limiter events).history identifier = answers limiter none (timesOf identifier events) := by
  induction events using List.reverseRecOn with
  | nil => exact ⟨rfl, rfl⟩
  | append_singleton events event ih =>
    obtain ⟨hentry, hhistory⟩ := ih
    rw [run, List.foldl_append, timesOf_snoc]
    change ((step limiter (run limiter events) event).entries identifier = _ ∧
      (step limiter (run limiter events) event).history identifier = _)
    cases event with
    | check other now =>
      by_cases h : other = identifier
      · subst h
        simp only [step, Service.set, Function.update_self, timesStep, if_true, entryAfter_snoc, answers_snoc, hentry, hhistory]
        exact ⟨trivial, trivial⟩
      · simp only [step, Service.set, Function.update_of_ne (Ne.symm h), timesStep, if_neg h]
        exact ⟨hentry, hhistory⟩
    | reset other =>
      by_cases h : other = identifier
      · subst h
        simp only [step, Service.set, Function.update_self, timesStep, if_true, entryAfter, answers, and_self]
      · simp only [step, Service.set, Function.update_of_ne (Ne.symm h), timesStep, if_neg h]
        exact ⟨hentry, hhistory⟩
    | clear => exact ⟨rfl, rfl⟩

theorem timesOf_sublist (events : List (Event ι)) : (timesOf identifier events).Sublist (events.filterMap Event.time?) := by
  induction events using List.reverseRecOn with
  | nil => exact List.nil_sublist _
  | append_singleton events event ih =>
    rw [timesOf_snoc, List.filterMap_append]
    cases event with
    | check other now =>
      rw [timesStep]
      split
      · exact ih.append (List.Sublist.refl _)
      · exact ih.trans (List.sublist_append_left _ _)
    | reset other =>
      rw [timesStep]
      split
      · exact List.nil_sublist _
      · exact ih.trans (List.sublist_append_left _ _)
    | clear => exact List.nil_sublist _

theorem timesOf_filter (events : List (Event ι)) :
    timesOf identifier (events.filter (Event.concerns identifier)) = timesOf identifier events := by
  induction events using List.reverseRecOn with
  | nil => rfl
  | append_singleton events event ih =>
    rw [List.filter_append, timesOf_snoc]
    cases hconcerns : event.concerns identifier with
    | true => rw [List.filter_singleton, hconcerns, cond_true, timesOf_snoc, ih]
    | false =>
      rw [List.filter_singleton, hconcerns, cond_false, List.append_nil, ih]
      cases event with
      | check other now => rw [timesStep, if_neg (by simpa [Event.concerns] using hconcerns)]
      | reset other => rw [timesStep, if_neg (by simpa [Event.concerns] using hconcerns)]
      | clear => cases hconcerns

/-- What a refusal has to say, from one call to the next. -/
def Limiter.Retries (limiter : Limiter) : Prop :=
  ∀ now entry, (limiter.check now entry).2.allowed = false → ∃ seconds, (limiter.check now entry).2.retryAfter = some seconds ∧
    ∀ later, now + 1000 * seconds ≤ later → (limiter.check later (some (limiter.check now entry).1)).2.allowed = true

theorem retriesHold_answers (h : limiter.Retries) (entry : Option limiter.Entry) (times : List Int) :
    RetriesHold (answers limiter entry times) := by
  induction times generalizing entry with
  | nil =>
    intro before call after heq
    simp [answers] at heq
  | cons now times ih =>
    intro before call after heq hrefused
    cases before with
    | nil =>
      obtain ⟨rfl, rfl⟩ := List.cons.inj heq
      obtain ⟨seconds, hseconds, hlater⟩ := h now entry hrefused
      refine ⟨seconds, hseconds, fun next hnext hle => ?_⟩
      cases times with
      | nil => cases hnext
      | cons later times =>
        obtain rfl := Option.some.inj (Option.mem_def.mp hnext)
        exact hlater later hle
    | cons first before => exact ih _ before call after (List.cons.inj heq).2 hrefused

end Solo

/-! ## Counting -/

theorem admitted_snoc (calls : List Call) (call : Call) (since before : Int) : admitted (calls ++ [call]) since before =
    admitted calls since before + if call.result.allowed ∧ since ≤ call.now ∧ call.now < before then 1 else 0 := by
  simp [admitted, List.countP_append, List.countP_singleton]

theorem admitted_eq_zero {calls : List Call} {since before : Int} (h : ∀ call ∈ calls, call.now < since ∨ before ≤ call.now) :
    admitted calls since before = 0 := by
  rw [admitted, List.countP_eq_zero]
  intro call hcall
  simp only [decide_eq_true_eq]
  rintro ⟨-, hsince, hbefore⟩
  rcases h call hcall with hlt | hle <;> omega

theorem admitted_of_past {calls : List Call} {last : Int} (h : ∀ call ∈ calls, call.now ≤ last) {since before before' : Int}
    (hbefore : last < before) (hbefore' : last < before') : admitted calls since before = admitted calls since before' := by
  rw [admitted, admitted, List.countP_congr]
  intro call hcall
  have := h call hcall
  simp only [decide_eq_true_eq]
  constructor
  · rintro ⟨hallowed, hsince, -⟩
    exact ⟨hallowed, hsince, by omega⟩
  · rintro ⟨hallowed, hsince, -⟩
    exact ⟨hallowed, hsince, by omega⟩

theorem snoc_eq_append_cons {α : Type} {calls before after : List α} {new call : α} (h : calls ++ [new] = before ++ call :: after) :
    (before = calls ∧ call = new) ∨ ∃ rest, after = rest ++ [new] ∧ calls = before ++ call :: rest := by
  rcases List.eq_nil_or_concat after with rfl | ⟨rest, last, rfl⟩
  · obtain ⟨hcalls, hnew⟩ := List.append_inj' h rfl
    exact .inl ⟨hcalls.symm, (List.singleton_inj.mp hnew).symm⟩
  · rw [List.concat_eq_append, ← List.cons_append, ← List.append_assoc] at h
    obtain ⟨hcalls, hnew⟩ := List.append_inj' h rfl
    obtain rfl := List.singleton_inj.mp hnew
    exact .inr ⟨rest, List.concat_eq_append, hcalls⟩

variable {config : RateLimitConfig}

/-! ## Windows -/

namespace FixedWindowLimiter

theorem retries (config : RateLimitConfig) : Limiter.Retries ⟨Window, check config⟩ := by
  intro now entry hrefused
  cases entry with
  | none => cases hrefused
  | some entry =>
    dsimp only [check] at hrefused ⊢
    split at hrefused
    · cases hrefused
    split at hrefused
    · rename_i hopen hfull
      rw [if_neg hopen, if_pos hfull]
      refine ⟨_, rfl, fun later hlater => ?_⟩
      have hceil : ((entry.resetAt - now : Int) : ℚ) ≤ ⌈((entry.resetAt - now : Int) : ℚ) / 1000⌉ * 1000 :=
        (div_le_iff₀ (by norm_num)).mp (Int.le_ceil _)
      have hceil' : entry.resetAt - now ≤ ⌈((entry.resetAt - now : Int) : ℚ) / 1000⌉ * 1000 := by exact_mod_cast hceil
      have hended : entry.resetAt ≤ later := by omega
      rw [if_pos hended]
      rfl
    · cases hrefused

structure Tracks (config : RateLimitConfig) (calls : List Call) (window : Window) : Prop where
  holds : WindowsHold config calls
  count : admitted calls (window.resetAt - config.windowMs) window.resetAt = window.count
  limit : window.count ≤ config.maxRequests
  started : ∃ call ∈ calls, window.resetAt - config.windowMs ≤ call.now
  past : ∀ call ∈ calls, call.now < window.resetAt
  older : ∀ call ∈ calls, call.result.resetAt = window.resetAt ∨ call.result.resetAt ≤ window.resetAt - config.windowMs

theorem windowsHold_nil : WindowsHold config [] where
  inside := by simp
  limit := by simp
  full := by simp

theorem windowsHold_snoc {calls : List Call} {new : Call} (h : WindowsHold config calls)
    (hinside : new.result.resetAt - config.windowMs ≤ new.now ∧ new.now < new.result.resetAt)
    (hlimit : ∀ call ∈ calls ++ [new],
      admitted (calls ++ [new]) (call.result.resetAt - config.windowMs) call.result.resetAt ≤ config.maxRequests)
    (hfull : new.result.allowed = false →
      admitted calls (new.result.resetAt - config.windowMs) new.result.resetAt = config.maxRequests) :
    WindowsHold config (calls ++ [new]) where
  inside call hcall := by
    rcases List.mem_append.mp hcall with hcall | hcall
    · exact h.inside call hcall
    · obtain rfl := List.mem_singleton.mp hcall
      exact hinside
  limit := hlimit
  full before call after heq hrefused := by
    rcases snoc_eq_append_cons heq with ⟨rfl, rfl⟩ | ⟨rest, -, hcalls⟩
    · exact hfull hrefused
    · exact h.full before call rest hcalls hrefused

theorem tracks_open {calls : List Call} {now : Int} (hmax : 1 ≤ config.maxRequests) (hwindow : 1 ≤ config.windowMs)
    (h : WindowsHold config calls) (hpast : ∀ call ∈ calls, call.now < now ∧ call.result.resetAt ≤ now) :
    Tracks config (calls ++ [⟨now, (openWindow config now).2⟩]) (openWindow config now).1 := by
  have hcount : admitted (calls ++ [⟨now, (openWindow config now).2⟩]) now (now + config.windowMs) = 1 := by
    rw [admitted_snoc, admitted_eq_zero fun call hcall => .inl (hpast call hcall).1, if_pos ⟨rfl, le_rfl, by simp; omega⟩]
  have hstart : (now + config.windowMs : Int) - config.windowMs = now := by omega
  refine ⟨windowsHold_snoc h ?_ ?_ ?_, ?_, hmax, ?_, ?_, ?_⟩
  · simp only [openWindow]
    omega
  · intro call hcall
    rcases List.mem_append.mp hcall with hcall | hcall
    · have hreset := (hpast call hcall).2
      rw [admitted_snoc, if_neg (by rintro ⟨-, -, hlt⟩; exact absurd hlt (not_lt.mpr hreset))]
      exact h.limit call hcall
    · obtain rfl := List.mem_singleton.mp hcall
      simp only [openWindow, hstart]
      exact hcount.le.trans hmax
  · intro hrefused
    cases hrefused
  · simp only [openWindow, hstart]
    exact hcount
  · exact ⟨_, List.mem_append_right _ (List.mem_singleton_self _), by simp [openWindow]⟩
  · intro call hcall
    rcases List.mem_append.mp hcall with hcall | hcall
    · have := (hpast call hcall).1
      simp only [openWindow]
      omega
    · obtain rfl := List.mem_singleton.mp hcall
      simp only [openWindow]
      omega
  · intro call hcall
    rcases List.mem_append.mp hcall with hcall | hcall
    · have := (hpast call hcall).2
      simp only [openWindow]
      omega
    · obtain rfl := List.mem_singleton.mp hcall
      exact .inl rfl

theorem tracks_stay {calls : List Call} {window : Window} {now : Int} {result : RateLimitResult} {count : Nat}
    (h : Tracks config calls window) (hsorted : ∀ call ∈ calls, call.now ≤ now) (hnow : now < window.resetAt)
    (hreset : result.resetAt = window.resetAt) (hcount : count = window.count + if result.allowed then 1 else 0)
    (hlimit : count ≤ config.maxRequests) (hfull : result.allowed = false → window.count = config.maxRequests) :
    Tracks config (calls ++ [⟨now, result⟩]) ⟨count, window.resetAt⟩ := by
  obtain ⟨first, hfirst, hstarted⟩ := h.started
  have hstart : window.resetAt - config.windowMs ≤ now := hstarted.trans (hsorted first hfirst)
  have hadmitted : admitted (calls ++ [⟨now, result⟩]) (window.resetAt - config.windowMs) window.resetAt = count := by
    rw [admitted_snoc, h.count, hcount]
    simp only [hstart, hnow, and_self, and_true]
  refine ⟨windowsHold_snoc h.holds ?_ ?_ ?_, hadmitted, hlimit, ?_, ?_, ?_⟩
  · rw [hreset]
    exact ⟨hstart, hnow⟩
  · intro call hcall
    rcases List.mem_append.mp hcall with hcall | hcall
    · rcases h.older call hcall with heq | hle
      · rw [heq, hadmitted]
        exact hlimit
      · rw [admitted_snoc, if_neg (by rintro ⟨-, -, hlt⟩; exact absurd hlt (not_lt.mpr (hle.trans hstart)))]
        exact h.holds.limit call hcall
    · obtain rfl := List.mem_singleton.mp hcall
      rw [hreset, hadmitted]
      exact hlimit
  · intro hrefused
    rw [hreset, h.count]
    exact hfull hrefused
  · exact ⟨first, List.mem_append_left _ hfirst, hstarted⟩
  · intro call hcall
    rcases List.mem_append.mp hcall with hcall | hcall
    · exact h.past call hcall
    · obtain rfl := List.mem_singleton.mp hcall
      exact hnow
  · intro call hcall
    rcases List.mem_append.mp hcall with hcall | hcall
    · exact h.older call hcall
    · obtain rfl := List.mem_singleton.mp hcall
      exact .inl hreset

theorem tracks_check {calls : List Call} {window : Window} {now : Int} (hmax : 1 ≤ config.maxRequests)
    (hwindow : 1 ≤ config.windowMs) (h : Tracks config calls window) (hsorted : ∀ call ∈ calls, call.now ≤ now) :
    Tracks config (calls ++ [⟨now, (check config now (some window)).2⟩]) (check config now (some window)).1 := by
  dsimp only [check]
  split
  · rename_i hended
    refine tracks_open hmax hwindow h.holds fun call hcall => ⟨(h.past call hcall).trans_le hended, ?_⟩
    rcases h.older call hcall with heq | hle
    · exact heq.le.trans hended
    · omega
  · rename_i hended
    split
    · rename_i hfull
      exact tracks_stay h hsorted (not_le.mp hended) rfl rfl h.limit fun _ => le_antisymm h.limit hfull
    · rename_i hfull
      exact tracks_stay h hsorted (not_le.mp hended) rfl rfl (not_le.mp hfull) fun hrefused => nomatch hrefused

theorem windowsHold_answers (hmax : 1 ≤ config.maxRequests) (hwindow : 1 ≤ config.windowMs) (times : List Int)
    (hsorted : times.Pairwise (· ≤ ·)) : WindowsHold config (answers ⟨Window, check config⟩ none times) := by
  have hopen : ∀ now, Tracks config [⟨now, (check config now none).2⟩] (check config now none).1 := fun now =>
    @tracks_open config [] now hmax hwindow windowsHold_nil (by simp)
  have hcheck : ∀ calls window now, Tracks config calls window → (∀ call ∈ calls, call.now ≤ now) →
      Tracks config (calls ++ [⟨now, (check config now (some window)).2⟩]) (check config now (some window)).1 :=
    fun _ _ _ => tracks_check hmax hwindow
  rcases @answers_invariant ⟨Window, check config⟩ _ hopen hcheck times hsorted with rfl | ⟨window, -, htracks⟩
  · exact windowsHold_nil
  · exact htracks.holds

end FixedWindowLimiter

/-! ## Buckets -/

namespace TokenBucketLimiter

theorem refillRate_pos (hmax : 1 ≤ config.maxRequests) (hwindow : 1 ≤ config.windowMs) : 0 < refillRate config :=
  div_pos (by exact_mod_cast hmax) (by exact_mod_cast hwindow)

theorem retries (hmax : 1 ≤ config.maxRequests) (hwindow : 1 ≤ config.windowMs) : Limiter.Retries ⟨Bucket, check config⟩ := by
  intro now entry hrefused
  cases entry with
  | none => cases hrefused
  | some bucket =>
    dsimp only [check] at hrefused ⊢
    split at hrefused
    · rename_i hlow
      rw [if_pos hlow]
      refine ⟨_, rfl, fun later hlater => ?_⟩
      have hrate := refillRate_pos hmax hwindow
      have hceil := Int.le_ceil ((1 - refill config now bucket) / refillRate config / 1000)
      rw [div_le_iff₀ (by norm_num), div_le_iff₀ hrate] at hceil
      have hpassed : (1000 * ⌈(1 - refill config now bucket) / refillRate config / 1000⌉ : ℚ) ≤ (later - now : Int) := by
        exact_mod_cast (by omega : 1000 * ⌈(1 - refill config now bucket) / refillRate config / 1000⌉ ≤ later - now)
      have henough : 1 ≤ refill config later ⟨refill config now bucket, now⟩ := by
        refine le_min (by exact_mod_cast hmax) ?_
        have := mul_le_mul_of_nonneg_right hpassed hrate.le
        linarith only [this, hceil]
      rw [if_neg (not_lt.mpr henough)]
    · cases hrefused

structure Paid (config : RateLimitConfig) (calls : List Call) (bucket : Bucket) : Prop where
  holds : RateHolds config calls
  nonneg : 0 ≤ bucket.tokens
  past : ∀ call ∈ calls, call.now ≤ bucket.lastRefill
  latest : ∃ call ∈ calls, call.now = bucket.lastRefill
  spent : ∀ first ≤ bucket.lastRefill, (admitted calls first (bucket.lastRefill + 1) : ℚ) + bucket.tokens ≤
    config.maxRequests + (bucket.lastRefill - first : Int) * refillRate config

theorem rateHolds_nil (config : RateLimitConfig) : RateHolds config [] := by
  intro first last hle
  have hspan : (0 : ℚ) ≤ last - first := sub_nonneg.mpr (by exact_mod_cast hle)
  rw [admitted_eq_zero (by simp), Nat.cast_zero]
  positivity

theorem paid_snoc {calls : List Call} {now : Int} {tokens left : ℚ} {result : RateLimitResult} (h : RateHolds config calls)
    (hsorted : ∀ call ∈ calls, call.now ≤ now)
    (hspent : ∀ first ≤ now, (admitted calls first (now + 1) : ℚ) + tokens ≤
      config.maxRequests + (now - first : Int) * refillRate config)
    (hleft : left = tokens - if result.allowed then 1 else 0) (hnonneg : 0 ≤ left) :
    Paid config (calls ++ [⟨now, result⟩]) ⟨left, now⟩ := by
  have hpast : ∀ call ∈ calls ++ [⟨now, result⟩], call.now ≤ now := by
    intro call hcall
    rcases List.mem_append.mp hcall with hcall | hcall
    · exact hsorted call hcall
    · exact (congrArg Call.now (List.mem_singleton.mp hcall)).le
  have hspent' : ∀ first ≤ now, (admitted (calls ++ [⟨now, result⟩]) first (now + 1) : ℚ) + left ≤
      config.maxRequests + (now - first : Int) * refillRate config := by
    intro first hfirst
    have := hspent first hfirst
    rw [admitted_snoc, hleft]
    simp only [hfirst, Int.lt_add_one_iff, le_rfl, and_true]
    split <;> push_cast at this ⊢ <;> linarith only [this]
  refine ⟨fun first last hle => ?_, hnonneg, hpast, ⟨_, List.mem_append_right _ (List.mem_singleton_self _), rfl⟩, hspent'⟩
  rcases lt_or_ge last now with hlast | hlast
  · rw [admitted_snoc, if_neg (by rintro ⟨-, -, hlt⟩; simp only at hlt; omega)]
    exact h first last hle
  · rcases le_or_gt first now with hfirst | hfirst
    · have hpaid := hspent' first hfirst
      have hspan : ((now - first : Int) : ℚ) ≤ last - first := by
        push_cast
        exact sub_le_sub_right (by exact_mod_cast hlast) _
      have hrate : 0 ≤ refillRate config := div_nonneg (Nat.cast_nonneg _) (Nat.cast_nonneg _)
      have := mul_le_mul_of_nonneg_right hspan hrate
      rw [admitted_of_past hpast (Int.lt_add_one_iff.mpr hlast) (Int.lt_add_one_iff.mpr le_rfl), mul_div_assoc]
      unfold refillRate at *
      linarith only [hpaid, this, hnonneg]
    · rw [admitted_eq_zero fun call hcall => .inl ((hpast call hcall).trans_lt hfirst)]
      have hspan : (0 : ℚ) ≤ last - first := sub_nonneg.mpr (by exact_mod_cast hle)
      rw [Nat.cast_zero]
      positivity

theorem paid_open (hmax : 1 ≤ config.maxRequests) (now : Int) :
    Paid config [⟨now, (check config now none).2⟩] (check config now none).1 := by
  refine @paid_snoc config [] now config.maxRequests _ _ (rateHolds_nil config) (by simp) (fun first hfirst => ?_) rfl ?_
  · have hspan : (0 : ℚ) ≤ (now - first : Int) := by exact_mod_cast (by omega : 0 ≤ now - first)
    have hrate : 0 ≤ refillRate config := div_nonneg (Nat.cast_nonneg _) (Nat.cast_nonneg _)
    rw [admitted_eq_zero (by simp), Nat.cast_zero, zero_add]
    exact le_add_of_nonneg_right (mul_nonneg hspan hrate)
  · exact sub_nonneg.mpr (by exact_mod_cast hmax)

theorem paid_check {calls : List Call} {bucket : Bucket} {now : Int} (h : Paid config calls bucket)
    (hsorted : ∀ call ∈ calls, call.now ≤ now) :
    Paid config (calls ++ [⟨now, (check config now (some bucket)).2⟩]) (check config now (some bucket)).1 := by
  have hlast : bucket.lastRefill ≤ now := by
    obtain ⟨call, hcall, hlatest⟩ := h.latest
    exact hlatest ▸ hsorted call hcall
  have hrate : 0 ≤ refillRate config := div_nonneg (Nat.cast_nonneg _) (Nat.cast_nonneg _)
  have hpassed : (0 : ℚ) ≤ (now - bucket.lastRefill : Int) := by exact_mod_cast (by omega : 0 ≤ now - bucket.lastRefill)
  have hspent : ∀ first ≤ now, (admitted calls first (now + 1) : ℚ) + refill config now bucket ≤
      config.maxRequests + (now - first : Int) * refillRate config := by
    intro first hfirst
    rcases le_or_gt first bucket.lastRefill with hold | hnew
    · have hrefill : refill config now bucket ≤ bucket.tokens + (now - bucket.lastRefill : Int) * refillRate config :=
        min_le_right _ _
      have hpaid := h.spent first hold
      rw [admitted_of_past h.past (Int.lt_add_one_iff.mpr hlast) (Int.lt_add_one_iff.mpr le_rfl)]
      push_cast at hrefill hpaid ⊢
      linarith only [hrefill, hpaid]
    · have hrefill : refill config now bucket ≤ config.maxRequests := min_le_left _ _
      have hspan : (0 : ℚ) ≤ (now - first : Int) := by exact_mod_cast (by omega : 0 ≤ now - first)
      rw [admitted_eq_zero fun call hcall => .inl ((h.past call hcall).trans_lt hnew), Nat.cast_zero, zero_add]
      exact hrefill.trans (le_add_of_nonneg_right (mul_nonneg hspan hrate))
  dsimp only [check]
  split
  · have hnonneg : 0 ≤ refill config now bucket :=
      le_min (Nat.cast_nonneg _) (add_nonneg h.nonneg (mul_nonneg hpassed hrate))
    exact paid_snoc h.holds hsorted hspent (sub_zero _).symm hnonneg
  · rename_i henough
    exact paid_snoc h.holds hsorted hspent rfl (sub_nonneg.mpr (not_lt.mp henough))

theorem rateHolds_answers (hmax : 1 ≤ config.maxRequests) (times : List Int) (hsorted : times.Pairwise (· ≤ ·)) :
    RateHolds config (answers ⟨Bucket, check config⟩ none times) := by
  have hcheck : ∀ calls bucket now, Paid config calls bucket → (∀ call ∈ calls, call.now ≤ now) →
      Paid config (calls ++ [⟨now, (check config now (some bucket)).2⟩]) (check config now (some bucket)).1 :=
    fun _ _ _ => paid_check
  rcases @answers_invariant ⟨Bucket, check config⟩ _ (paid_open hmax) hcheck times hsorted with rfl | ⟨bucket, -, hpaid⟩
  · exact rateHolds_nil config
  · exact hpaid.holds

theorem slidingHolds_of_rateHolds {calls : List Call} (h : RateHolds config calls)
    (hsmall : config.maxRequests = 1 ∨ config.windowMs = 1) (hwindow : 1 ≤ config.windowMs) : SlidingHolds config calls := by
  intro first last hle hshort
  have hrate := h first last hle
  have hwindow' : (0 : ℚ) < config.windowMs := by exact_mod_cast hwindow
  rcases hsmall with hone | hone
  · have hspan : ((last : ℚ) - first) * config.maxRequests / config.windowMs < 1 := by
      rw [hone, Nat.cast_one, mul_one, div_lt_one hwindow']
      exact_mod_cast hshort
    have hlt : (admitted calls first (last + 1) : ℚ) < config.maxRequests + 1 := by linarith only [hrate, hspan]
    exact Nat.lt_succ_iff.mp (by exact_mod_cast hlt)
  · obtain rfl : last = first := by omega
    rw [sub_self, zero_mul, zero_div, add_zero] at hrate
    exact_mod_cast hrate

/-! ## A burst, and one call more -/

theorem burst_full {burst : Nat} {tokens : ℚ} (hburst : burst ≤ tokens) (hfull : tokens ≤ config.maxRequests) :
    entryAfter ⟨Bucket, check config⟩ (some ⟨tokens, 0⟩) (List.replicate burst 0) = some ⟨tokens - burst, 0⟩ ∧
      ∀ call ∈ answers ⟨Bucket, check config⟩ (some ⟨tokens, 0⟩) (List.replicate burst 0), call.result.allowed = true := by
  induction burst generalizing tokens with
  | zero => exact ⟨by simp [entryAfter], by simp [answers]⟩
  | succ burst ih =>
    push_cast at hburst
    have hone : 1 ≤ tokens := (le_add_of_nonneg_left (Nat.cast_nonneg burst)).trans hburst
    have hrefill : refill config 0 ⟨tokens, 0⟩ = tokens := by
      simp [refill, hfull]
    have hcheck : check config 0 (some ⟨tokens, 0⟩) =
        (⟨tokens - 1, 0⟩, { allowed := true, remaining := ⌊tokens - 1⌋, resetAt := 0 + config.windowMs }) := by
      simp only [check, hrefill, not_lt.mpr hone, if_false]
    obtain ⟨hentry, hallowed⟩ := @ih (tokens - 1) (by linarith only [hburst]) (by linarith only [hfull])
    rw [List.replicate_succ, entryAfter, answers]
    simp only [hcheck]
    refine ⟨?_, List.forall_mem_cons.mpr ⟨rfl, hallowed⟩⟩
    rw [hentry]
    push_cast
    rw [sub_sub, add_comm (1 : ℚ)]

theorem burst_all (hmax : 1 ≤ config.maxRequests) :
    entryAfter ⟨Bucket, check config⟩ none (List.replicate config.maxRequests 0) = some ⟨0, 0⟩ ∧
      ∀ call ∈ answers ⟨Bucket, check config⟩ none (List.replicate config.maxRequests 0), call.result.allowed = true := by
  obtain ⟨burst, hburst⟩ := Nat.exists_eq_add_of_le' hmax
  have hcast : (config.maxRequests : ℚ) - 1 = burst := by rw [hburst]; push_cast; ring
  obtain ⟨hentry, hallowed⟩ := @burst_full config burst (config.maxRequests - 1) hcast.ge (by linarith only)
  rw [hburst, List.replicate_succ, entryAfter, answers]
  refine ⟨?_, List.forall_mem_cons.mpr ⟨rfl, hallowed⟩⟩
  rw [sub_eq_zero.mpr hcast] at hentry
  exact hentry

theorem not_slidingHolds (hmax : 2 ≤ config.maxRequests) (hwindow : 2 ≤ config.windowMs) :
    ¬SlidingHolds config (answers ⟨Bucket, check config⟩ none (List.replicate config.maxRequests 0 ++ [(config.windowMs : Int) - 1])) := by
  intro h
  obtain ⟨hentry, hallowed⟩ := @burst_all config (by omega)
  have hcount : admitted (answers ⟨Bucket, check config⟩ none (List.replicate config.maxRequests 0)) 0 ((config.windowMs : Int) - 1 + 1) =
      config.maxRequests := by
    have hlength : (answers ⟨Bucket, check config⟩ none (List.replicate config.maxRequests 0)).length = config.maxRequests := by
      rw [← List.length_map Call.now, answers_now, List.length_replicate]
    refine (List.countP_eq_length.mpr fun call hcall => ?_).trans hlength
    have hnow := List.mem_map_of_mem (f := Call.now) hcall
    rw [answers_now] at hnow
    have hzero := (List.mem_replicate.mp hnow).2
    rw [decide_eq_true_eq, hzero]
    exact ⟨hallowed call hcall, le_rfl, by omega⟩
  have hmore := h 0 (config.windowMs - 1) (by omega) (by omega)
  have hrefill : 1 ≤ refill config (config.windowMs - 1) ⟨0, 0⟩ := by
    have hmax' : (2 : ℚ) ≤ config.maxRequests := by exact_mod_cast hmax
    have hwindow' : (2 : ℚ) ≤ config.windowMs := by exact_mod_cast hwindow
    refine le_min (by linarith only [hmax']) ?_
    rw [refillRate, zero_add, ← mul_div_assoc, le_div_iff₀ (by linarith only [hwindow'])]
    push_cast
    nlinarith only [hmax', hwindow']
  rw [answers_snoc, admitted_snoc, hcount, hentry, if_pos] at hmore
  · omega
  · refine ⟨?_, ?_, ?_⟩
    · simp only [check, not_lt.mpr hrefill, if_false]
    · simp only
      omega
    · simp only
      omega

end TokenBucketLimiter

/-! ## Every run -/

theorem retries_createLimiterByStrategy (hmax : 1 ≤ config.maxRequests) (hwindow : 1 ≤ config.windowMs) :
    (createLimiterByStrategy config).Retries := by
  unfold createLimiterByStrategy
  split
  · exact FixedWindowLimiter.retries config
  · exact TokenBucketLimiter.retries hmax hwindow

theorem exists_run (limiter : Limiter) (times : List Int) (hsorted : times.Pairwise (· ≤ ·)) :
    ∃ events : List (Event Unit), Steady events ∧ (run limiter events).history () = answers limiter none times := by
  have hevents : (times.map (Event.check ())).filterMap Event.time? = times := by
    rw [List.filterMap_map]
    exact List.filterMap_some
  have htimes : ∀ before, (times.map (Event.check ())).foldl (timesStep ()) before = before ++ times := by
    intro before
    induction times generalizing before with
    | nil => exact (List.append_nil before).symm
    | cons now times ih =>
      rw [List.map_cons, List.foldl_cons, timesStep, if_pos rfl,
        ih (List.pairwise_cons.mp hsorted).2 (by rw [List.filterMap_map]; exact List.filterMap_some), List.append_assoc]
      rfl
  refine ⟨times.map (Event.check ()), ?_, ?_⟩
  · rw [Steady, hevents]
    exact hsorted
  · rw [(run_alone () _).2, timesOf, htimes, List.nil_append]

/-- The promises hold, except that a bucket in the place of a sliding window can let more than its limit through. -/
theorem limitsHold_iff (config : RateLimitConfig) (hmax : 1 ≤ config.maxRequests) (hwindow : 1 ≤ config.windowMs) :
    LimitsHold config ↔ (config.strategy = .slidingWindow → config.maxRequests = 1 ∨ config.windowMs = 1) := by
  constructor
  · intro h hsliding
    by_contra hlarge
    push Not at hlarge
    obtain ⟨events, hsteady, hhistory⟩ := exists_run (createLimiterByStrategy config)
      (List.replicate config.maxRequests 0 ++ [(config.windowMs : Int) - 1])
      (List.pairwise_append.mpr ⟨List.pairwise_replicate.mpr (.inr le_rfl), List.pairwise_singleton _ _, by
        intro time htime last hlast
        rw [(List.mem_replicate.mp htime).2, List.mem_singleton.mp hlast]
        omega⟩)
    have hlimit := (h Unit events hsteady ()).1
    rw [hhistory, createLimiterByStrategy, if_neg (by rw [hsliding]; decide), LimitHolds, hsliding] at hlimit
    exact TokenBucketLimiter.not_slidingHolds (by omega) (by omega) hlimit
  · intro hsmall ι _ events hsteady identifier
    have hsorted : (timesOf identifier events).Pairwise (· ≤ ·) := hsteady.sublist (timesOf_sublist identifier events)
    dsimp only
    rw [(run_alone identifier events).2, (run_alone identifier (events.filter (Event.concerns identifier))).2, timesOf_filter]
    refine ⟨?_, retriesHold_answers (retries_createLimiterByStrategy hmax hwindow) none _, rfl⟩
    cases hstrategy : config.strategy with
    | fixedWindow =>
      rw [createLimiterByStrategy, if_pos hstrategy, LimitHolds, hstrategy]
      exact FixedWindowLimiter.windowsHold_answers hmax hwindow _ hsorted
    | tokenBucket =>
      rw [createLimiterByStrategy, if_neg (by rw [hstrategy]; decide), LimitHolds, hstrategy]
      exact TokenBucketLimiter.rateHolds_answers hmax _ hsorted
    | slidingWindow =>
      rw [createLimiterByStrategy, if_neg (by rw [hstrategy]; decide), LimitHolds, hstrategy]
      exact TokenBucketLimiter.slidingHolds_of_rateHolds (TokenBucketLimiter.rateHolds_answers hmax _ hsorted)
        (hsmall hstrategy) hwindow

theorem limitsHold_hundred : LimitsHold ⟨.fixedWindow, 100, 60000⟩ ∧ LimitsHold ⟨.tokenBucket, 100, 60000⟩ ∧
    ¬LimitsHold ⟨.slidingWindow, 100, 60000⟩ ∧ LimitsHold ⟨.slidingWindow, 1, 1000⟩ :=
  ⟨(limitsHold_iff ⟨.fixedWindow, 100, 60000⟩ (by decide) (by decide)).mpr nofun,
    (limitsHold_iff ⟨.tokenBucket, 100, 60000⟩ (by decide) (by decide)).mpr nofun,
    mt (limitsHold_iff ⟨.slidingWindow, 100, 60000⟩ (by decide) (by decide)).mp (by decide),
    (limitsHold_iff ⟨.slidingWindow, 1, 1000⟩ (by decide) (by decide)).mpr fun _ => .inl rfl⟩

/-- A limit of two calls in a second lets three through in half a second. -/
theorem slidingWindow_overshoot : ¬LimitsHold ⟨.slidingWindow, 2, 1000⟩ := by
  intro h
  have hlimit := (h Unit [.check () 0, .check () 0, .check () 500] (by simp [Steady, Event.time?]) ()).1 0 500 (by decide) (by decide)
  revert hlimit
  decide +kernel

end Veryfront.Agent.RateLimit
