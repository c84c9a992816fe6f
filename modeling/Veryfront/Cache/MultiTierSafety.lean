import Veryfront.Cache.MultiTier
import Veryfront.Lib.Runs

/-!
# What a later get returns

A backfill carries a value that was read some time ago. It brings back a value that a set or delete has
replaced when that set or delete reached the tier written to, but not, by the time of the reading, the
tier the value was read from. Where no backfill does this, a set or delete that ran alone decides what
every later get of its key returns.
-/

namespace Veryfront.Cache

open Lib

variable {κ V : Type}

/-! ## Sets and deletes -/

namespace CacheOp

def Writes : CacheOp κ V → κ → Prop
  | .set key _ _, k => key = k
  | .delete key, k => key = k
  | _, _ => False

/-- What a get finds after the call alone. -/
def leaves : CacheOp κ V → Option V
  | .set _ value _ => some value
  | _ => none

end CacheOp

def CachePhase.Pending : CachePhase κ V → TierName → Prop
  | .setting left, t => t ∈ left ∨ t = .l3
  | .settingL3, t => t = .l3
  | .deleting left, t => t ∈ left
  | _, _ => False

/-- A set needs a tier to keep its value and a delete needs every tier to implement it. A backfill may
write a value to a tier only when its source, at the time of the reading, had taken every set and delete
of the key that this tier has taken by now. -/
def NothingSuperseded (config : MultiTierCacheConfig) (s : MultiTierCache κ V) : CacheAction κ V → Prop
  | .call _ (.set _ _ _) => ∃ t, (config.tier t).isSome
  | .call _ (.delete _) => ∀ t tier, config.tier t = some tier → tier.delete
  | .backfillSet p j t => ∀ call b, s.calls p = some call → call.backfills[j]? = some b →
      s.applied t b.key ⊆ b.seen
  | _ => True

namespace MultiTierCache

variable [DecidableEq κ]

def Steps (config : MultiTierCacheConfig) (s : MultiTierCache κ V) (a : CacheAction κ V) (s' : MultiTierCache κ V) :
    Prop :=
  s.step config a = some s'

def StepsFresh (config : MultiTierCacheConfig) (s : MultiTierCache κ V) (a : CacheAction κ V)
    (s' : MultiTierCache κ V) : Prop :=
  NothingSuperseded config s a ∧ s.step config a = some s'

/-- Call `w` sets or deletes `k` with no other set or delete of `k` in flight or started afterwards. Then a
get of `k` that starts once `w` has resolved can go on until it answers, it answers within its start, three
tiers and one TTL lookup, and its answer is what `w` left. -/
def NoResurrection (steps : MultiTierCache κ V → CacheAction κ V → MultiTierCache κ V → Prop) : Prop :=
  ∀ (tiers : TierName → κ → Option (CacheEntry V)) es₁ es₂ es₃ s₁ s₁' s₂ s₃ w op k g,
    Run steps (fresh tiers) es₁ s₁ →
    (∀ p call, s₁.calls p = some call → call.op.Writes k → call.phase = .resolved) →
    op.Writes k → steps s₁ (.call w op) s₁' →
    Run steps s₁' es₂ s₂ → (s₂.calls w).map CacheCall.phase = some .resolved →
    Run steps s₂ es₃ s₃ → (∀ p op', .call p op' ∈ es₂ ++ es₃ → ¬ op'.Writes k) →
    .call g (.get k) ∈ es₃ →
    ∃ call, s₃.calls g = some call ∧ (∀ r, call.answer = some r → r = op.leaves) ∧
      (call.answer = none → ∃ a s', a.of = g ∧ steps s₃ a s') ∧
      es₃.countP (·.of = g) ≤ 5

/-! ## What a step leaves alone -/

section Frame

variable (s : MultiTierCache κ V) (p : Nat) (t : TierName) (key : κ) (e : Option (CacheEntry V)) (call : CacheCall κ V)

omit [DecidableEq κ] in
@[simp] theorem setCall_calls_self : (s.setCall p call).calls p = some call := Function.update_self ..

omit [DecidableEq κ] in
theorem setCall_calls_ne {q : Nat} (hq : q ≠ p) : (s.setCall p call).calls q = s.calls q :=
  Function.update_of_ne hq ..

omit [DecidableEq κ] in
theorem setCall_cases {q : Nat} {c : CacheCall κ V} (h : (s.setCall p call).calls q = some c) :
    (q = p ∧ c = call) ∨ (q ≠ p ∧ s.calls q = some c) := by
  by_cases hq : q = p
  · subst hq
    rw [setCall_calls_self] at h
    exact .inl ⟨rfl, (Option.some.inj h).symm⟩
  · rw [setCall_calls_ne s p call hq] at h
    exact .inr ⟨hq, h⟩

theorem ask_store_value (t' : TierName) (k : κ) :
    ((s.store t key e).ask t' k).value = if t' = t ∧ k = key then e.map CacheEntry.value else (s.ask t' k).value := by
  simp only [ask, store]
  split <;> rfl

theorem ask_apply_value (t' : TierName) (k : κ) :
    ((s.apply p t key e).ask t' k).value = if t' = t ∧ k = key then e.map CacheEntry.value else (s.ask t' k).value :=
  s.ask_store_value t key e t' k

theorem mem_applied_apply (t' : TierName) (k : κ) (w : Nat) :
    w ∈ (s.apply p t key e).applied t' k ↔ (t' = t ∧ k = key ∧ w = p) ∨ w ∈ s.applied t' k := by
  simp only [apply]
  split
  · rename_i h
    simp [h]
  · rename_i h
    constructor
    · exact .inr
    · rintro (⟨ht, hk, -⟩ | hw)
      · exact absurd ⟨ht, hk⟩ h
      · exact hw

end Frame

/-! ## What a step does -/

/-- The asked keys `after` have the answers of `before` or answers of `t` as it is now. -/
def Answering (s : MultiTierCache κ V) (t : TierName) (before after : List (κ × Option (TierAnswer V))) : Prop :=
  ∀ e ∈ after, e ∈ before ∨ e = (e.1, some (s.ask t e.1))

inductive Stepped (config : MultiTierCacheConfig) (s : MultiTierCache κ V) : CacheAction κ V → MultiTierCache κ V → Prop
  | call {p : Nat} {op : CacheOp κ V} (hc : s.calls p = none) :
      Stepped config s (.call p op) (s.setCall p { op, phase := config.start op })
  | get {p : Nat} {c : CacheCall κ V} {key : κ} {t : TierName} {ts : List TierName} (hc : s.calls p = some c)
      (hop : c.op = .get key) (hph : c.phase = .getting (t :: ts)) :
      Stepped config s (.get p) (s.setCall p (config.getFromTier s key t ts c))
  | batch {a : CacheAction κ V} {c : CacheCall κ V} {batch : BatchRead κ V}
      {asked : List (κ × Option (TierAnswer V))} (hc : s.calls a.of = some c) (hph : c.phase = .batching batch)
      (hasked : Answering s batch.tier batch.asked asked) :
      Stepped config s a (s.setCall a.of { c with phase := .batching { batch with asked } })
  | collect {p : Nat} {c : CacheCall κ V} {batch : BatchRead κ V} (hc : s.calls p = some c)
      (hph : c.phase = .batching batch) :
      Stepped config s (.batchCollect p) (s.setCall p (config.batchCollect batch c))
  | write {p : Nat} {t : TierName} {c : CacheCall κ V} {key : κ} {e : Option (CacheEntry V)}
      {phase : CachePhase κ V} (hc : s.calls p = some c) (hop : c.op.Writes key)
      (he : e.map CacheEntry.value = c.op.leaves) (hleft : c.phase.Pending t)
      (hpend : ∀ t', (config.tier t').isSome → c.phase.Pending t' → t' = t ∨ phase.Pending t')
      (hph : ∀ batch, phase ≠ .batching batch) :
      Stepped config s (.write p t) ((s.apply p t key e).setCall p { c with phase })
  | remainingTtl {p j : Nat} {remaining : Option Rat} {c : CacheCall κ V} {b : Backfill κ V} (hc : s.calls p = some c)
      (hb : c.backfills[j]? = some b) (hst : b.stage = .lookup) :
      Stepped config s (.remainingTtl p j remaining) (s.setCall p { c with
        backfills := c.backfills.set j { b with stage := config.afterRemainingTtl b.tiers remaining } })
  | backfillSet {p j : Nat} {t : TierName} {c : CacheCall κ V} {b : Backfill κ V} {ttl : Rat} {left : List TierName}
      (hc : s.calls p = some c) (hb : c.backfills[j]? = some b) (hst : b.stage = .writing ttl left) (ht : t ∈ left) :
      Stepped config s (.backfillSet p j t) ((s.store t b.key (some ⟨b.value, ttl⟩)).setCall p { c with
        backfills := c.backfills.set j { b with stage := .writing ttl (left.erase t) } })

variable {config : MultiTierCacheConfig} {t : TierName}

variable {left : List TierName}

omit [DecidableEq κ] in
theorem pending_setNext
    (ht : (config.tier t).isSome) (h : t ∈ left ∨ t = .l3) : (config.setNext left : CachePhase κ V).Pending t := by
  cases left with
  | nil =>
    obtain rfl := h.resolve_left (List.not_mem_nil)
    have hl3 : config.l3.isSome := ht
    rw [MultiTierCacheConfig.setNext, if_pos hl3]
    rfl
  | cons t' ts => exact h

omit [DecidableEq κ] in
theorem pending_deleteNext (h : t ∈ left) :
    (MultiTierCacheConfig.deleteNext left : CachePhase κ V).Pending t := by
  cases left with
  | nil => cases h
  | cons t' ts => exact h

theorem mem_erase_or {t' : TierName} (h : t' ∈ left) : t' = t ∨ t' ∈ left.erase t := by
  by_cases heq : t' = t
  · exact .inl heq
  · exact .inr ((List.mem_erase_of_ne heq).mpr h)

variable {c : CacheCall κ V}

theorem stepWrite_stepped {s s' : MultiTierCache κ V} {p : Nat} (hc : s.calls p = some c) (h : s.stepWrite config p t c = some s') :
    Stepped config s (.write p t) s' := by
  unfold stepWrite at h
  split at h
  · rename_i key value ttlSeconds left hop hph
    split at h
    · rename_i ht
      obtain rfl := Option.some.inj h
      refine .write hc (by rw [hop]; rfl) (by rw [hop]; rfl) (by rw [hph]; exact .inl ht) (fun t' hcfg hp => ?_) ?_
      · rw [hph] at hp
        rcases hp with hp | rfl
        · exact (mem_erase_or hp).imp_right fun hm => pending_setNext hcfg (.inl hm)
        · exact .inr (pending_setNext hcfg (.inr rfl))
      · intro batch
        unfold MultiTierCacheConfig.setNext
        split
        · split <;> exact fun h => nomatch h
        · exact fun h => nomatch h
    · cases h
  · rename_i key value ttlSeconds hop hph
    split at h
    · rename_i ht
      obtain rfl := Option.some.inj h
      refine .write hc (by rw [hop]; rfl) (by rw [hop]; rfl) (by rw [hph]; exact ht) (fun t' hcfg hp => ?_)
        fun _ h => nomatch h
      rw [hph] at hp
      exact .inl (Eq.trans hp ht.symm)
    · cases h
  · rename_i key left hop hph
    split at h
    · rename_i ht
      obtain rfl := Option.some.inj h
      refine .write hc (by rw [hop]; rfl) (by rw [hop]; rfl) (by rw [hph]; exact ht) (fun t' hcfg hp => ?_) ?_
      · rw [hph] at hp
        exact (mem_erase_or hp).imp_right pending_deleteNext
      · intro batch
        unfold MultiTierCacheConfig.deleteNext
        split <;> exact fun h => nomatch h
    · cases h
  · cases h

variable {a : CacheAction κ V}

theorem step_stepped {s s' : MultiTierCache κ V}
    (h : s.step config a = some s') : Stepped config s a s' := by
  cases a with
  | call p op =>
    dsimp only [step] at h
    split at h
    · rename_i hc
      obtain rfl := Option.some.inj h
      exact .call hc
    · cases h
  | get p =>
    obtain ⟨c, hc, h⟩ := Option.bind_eq_some_iff.mp h
    unfold stepGet at h
    split at h
    · rename_i key t ts hop hph
      obtain rfl := Option.some.inj h
      exact .get hc hop hph
    · cases h
  | batchGet p i =>
    obtain ⟨c, hc, h⟩ := Option.bind_eq_some_iff.mp h
    unfold stepBatchGet at h
    split at h
    · rename_i batch hph
      split at h
      · cases h
      split at h
      · rename_i k hi
        obtain rfl := Option.some.inj h
        refine .batch (a := .batchGet p i) hc hph fun e he => ?_
        rcases List.mem_or_eq_of_mem_set he with he | rfl
        · exact .inl he
        · exact .inr rfl
      · cases h
    · cases h
  | batchGetAll p =>
    obtain ⟨c, hc, h⟩ := Option.bind_eq_some_iff.mp h
    unfold stepBatchGetAll at h
    split at h
    · rename_i batch hph
      split at h
      · obtain rfl := Option.some.inj h
        refine .batch (a := .batchGetAll p) hc hph fun e he => ?_
        obtain ⟨e₀, -, rfl⟩ := List.mem_map.mp he
        exact .inr rfl
      · cases h
    · cases h
  | batchCollect p =>
    obtain ⟨c, hc, h⟩ := Option.bind_eq_some_iff.mp h
    unfold stepBatchCollect at h
    split at h
    · rename_i batch hph
      split at h
      · obtain rfl := Option.some.inj h
        exact .collect hc hph
      · cases h
    · cases h
  | write p t =>
    obtain ⟨c, hc, h⟩ := Option.bind_eq_some_iff.mp h
    exact stepWrite_stepped hc h
  | remainingTtl p j remaining =>
    obtain ⟨c, hc, h⟩ := Option.bind_eq_some_iff.mp h
    unfold stepRemainingTtl at h
    split at h
    · rename_i b hb
      split at h
      · rename_i hst
        split at h
        · cases h
        · obtain rfl := Option.some.inj h
          exact .remainingTtl hc hb hst
      · cases h
    · cases h
  | backfillSet p j t =>
    obtain ⟨c, hc, h⟩ := Option.bind_eq_some_iff.mp h
    unfold stepBackfillSet at h
    split at h
    · rename_i b hb
      split at h
      · rename_i ttl left hst
        split at h
        · rename_i ht
          obtain rfl := Option.some.inj h
          exact .backfillSet hc hb hst ht
        · cases h
      · cases h
    · cases h

/-! ## The values that a set or delete leaves behind -/

/-- Wherever call `w` has been taken in, the value of `k` is one of `Q`: in a tier, in an answer a batch
collects and in a backfill. -/
structure Tracks (w : Nat) (k : κ) (Q : Option V → Prop) (s : MultiTierCache κ V) : Prop where
  holds : ∀ t, w ∈ s.applied t k → Q (s.ask t k).value
  backfills : ∀ p c, s.calls p = some c → ∀ b ∈ c.backfills, b.key = k → w ∈ b.seen → Q (some b.value)
  answers : ∀ p c batch, s.calls p = some c → c.phase = .batching batch →
    ∀ a, (k, some a) ∈ batch.asked → w ∈ a.seen → Q a.value

omit [DecidableEq κ] in
theorem mem_onHit {key : κ} {v : V} {seen : List Nat}
    {b : Backfill κ V} (h : b ∈ config.onHit t key v seen) : b.key = key ∧ b.value = v ∧ b.seen = seen := by
  have hmem : ∀ tiers source, b ∈ (config.backfill key v tiers source seen).toList →
      b.key = key ∧ b.value = v ∧ b.seen = seen := by
    intro tiers source hb
    rw [Option.mem_toList] at hb
    unfold MultiTierCacheConfig.backfill at hb
    split at hb
    · obtain rfl := Option.some.inj hb
      exact ⟨rfl, rfl, rfl⟩
    · cases hb
  cases t with
  | l1 => cases h
  | l2 => exact hmem _ _ h
  | l3 => exact hmem _ _ h

theorem mem_tierResults {asked : List (κ × Option (TierAnswer V))} {k : κ} {a : TierAnswer V}
    (h : (MultiTierCacheConfig.tierResults asked).get? k = some a) : (k, some a) ∈ asked := by
  refine List.foldlRecOn (motive := fun m : OrdMap κ (TierAnswer V) => m.get? k = some a → (k, some a) ∈ asked) asked _
    (by simp [OrdMap.get?_empty]) ?_ h
  rintro m ih ⟨key, answer⟩ hasked hm
  cases answer with
  | none => exact ih hm
  | some a' =>
    replace hm : (m.set key a').get? k = some a := hm
    rw [OrdMap.get?_set] at hm
    split at hm
    · rename_i hk
      obtain rfl := Option.some.inj hm
      exact hk ▸ hasked
    · exact ih hm

omit [DecidableEq κ] in
theorem getNext_not_batching (ts : List TierName) (batch : BatchRead κ V) :
    MultiTierCacheConfig.getNext ts ≠ .batching batch := by
  cases ts <;> exact fun h => nomatch h

theorem batchNext_asked {remaining : List κ} {results : OrdMap κ (Option V)}
    {ts : List TierName} {batch : BatchRead κ V} (h : config.batchNext remaining results ts = .batching batch) :
    ∀ e ∈ batch.asked, e.2 = none := by
  induction ts with
  | nil => cases h
  | cons t ts ih =>
    unfold MultiTierCacheConfig.batchNext at h
    split at h
    · obtain rfl := CachePhase.batching.inj h
      intro e he
      obtain ⟨k, -, rfl⟩ := List.mem_map.mp he
      rfl
    · exact ih h

theorem start_asked {op : CacheOp κ V} {batch : BatchRead κ V}
    (h : config.start op = .batching batch) : ∀ e ∈ batch.asked, e.2 = none := by
  cases op with
  | get key => cases h
  | getBatch keys =>
    dsimp only [MultiTierCacheConfig.start] at h
    split at h
    · cases h
    · exact batchNext_asked h
  | set key value ttlSeconds =>
    dsimp only [MultiTierCacheConfig.start, MultiTierCacheConfig.setNext] at h
    split at h
    · split at h <;> cases h
    · cases h
  | delete key =>
    dsimp only [MultiTierCacheConfig.start, MultiTierCacheConfig.deleteNext] at h
    split at h <;> cases h

omit [DecidableEq κ] in
theorem getFromTier_cases (config : MultiTierCacheConfig) (s : MultiTierCache κ V) (key : κ) (t : TierName)
    (ts : List TierName) (c : CacheCall κ V) :
    config.getFromTier s key t ts c = { c with phase := MultiTierCacheConfig.getNext ts } ∨
    ∃ v, (s.ask t key).value = some v ∧ config.getFromTier s key t ts c =
      { c with phase := .answered (some v), backfills := config.onHit t key v (s.ask t key).seen } := by
  unfold MultiTierCacheConfig.getFromTier
  split
  · exact .inl rfl
  · split
    · exact .inl rfl
    · rename_i v hv
      exact .inr ⟨v, hv, rfl⟩

namespace Tracks

variable {config : MultiTierCacheConfig} {w : Nat} {k : κ} {Q : Option V → Prop} {s : MultiTierCache κ V}

omit [DecidableEq κ] in
theorem setCall (h : Tracks w k Q s) {p : Nat} {c' : CacheCall κ V}
    (hb : ∀ b ∈ c'.backfills, b.key = k → w ∈ b.seen → Q (some b.value))
    (ha : ∀ batch, c'.phase = .batching batch → ∀ a, (k, some a) ∈ batch.asked → w ∈ a.seen → Q a.value) :
    Tracks w k Q (s.setCall p c') where
  holds := h.holds
  backfills q d hd := by
    obtain ⟨-, rfl⟩ | ⟨-, hd⟩ := s.setCall_cases p c' hd
    · exact hb
    · exact h.backfills q d hd
  answers q d batch hd := by
    obtain ⟨-, rfl⟩ | ⟨-, hd⟩ := s.setCall_cases p c' hd
    · exact ha batch
    · exact h.answers q d batch hd

theorem store (h : Tracks w k Q s) {key : κ} {e : Option (CacheEntry V)}
    (he : key = k → w ∈ s.applied t k → Q (e.map CacheEntry.value)) : Tracks w k Q (s.store t key e) where
  holds t' hw := by
    rw [ask_store_value]
    split
    · rename_i heq
      obtain ⟨rfl, rfl⟩ := heq
      exact he rfl hw
    · exact h.holds t' hw
  backfills := h.backfills
  answers := h.answers

theorem apply (h : Tracks w k Q s) {p : Nat} {key : κ} {e : Option (CacheEntry V)}
    (he : key = k → w = p ∨ w ∈ s.applied t k → Q (e.map CacheEntry.value)) :
    Tracks w k Q (s.apply p t key e) where
  holds t' hw := by
    rw [ask_apply_value]
    have hw := (s.mem_applied_apply p t key e t' k w).mp hw
    split
    · rename_i heq
      obtain ⟨rfl, rfl⟩ := heq
      exact he rfl (hw.imp_left fun hp => hp.2.2)
    · rename_i hne
      refine h.holds t' (hw.resolve_left ?_)
      rintro ⟨ht, hk, -⟩
      exact hne ⟨ht, hk⟩
  backfills := h.backfills
  answers := h.answers

omit [DecidableEq κ] in
theorem set_backfill (h : Tracks w k Q s) {p j : Nat} {b b' : Backfill κ V}
    (hc : s.calls p = some c) (hb : c.backfills[j]? = some b)
    (heq : b'.key = b.key ∧ b'.value = b.value ∧ b'.seen = b.seen) :
    ∀ x ∈ c.backfills.set j b', x.key = k → w ∈ x.seen → Q (some x.value) := by
  intro x hx
  rcases List.mem_or_eq_of_mem_set hx with hx | rfl
  · exact h.backfills p c hc x hx
  · rw [heq.1, heq.2.1, heq.2.2]
    exact h.backfills p c hc b (List.mem_of_getElem? hb)

/-- What the next step must not break: a write or a backfill that reaches a tier where `w` has been taken. -/
theorem step (h : Tracks w k Q s) {s' : MultiTierCache κ V} (hs : Stepped config s a s')
    (hwrite : ∀ p t c, a = .write p t → s.calls p = some c → c.op.Writes k → w = p ∨ w ∈ s.applied t k →
      Q c.op.leaves)
    (hfill : ∀ p j t c b, a = .backfillSet p j t → s.calls p = some c → c.backfills[j]? = some b → b.key = k →
      w ∈ s.applied t k → Q (some b.value)) : Tracks w k Q s' := by
  cases hs with
  | call hc => exact h.setCall (fun b hb => nomatch hb) fun batch hb a ha => nomatch start_asked hb _ ha
  | get hc hop hph =>
    rcases getFromTier_cases config s _ _ _ _ with heq | ⟨v, hv, heq⟩
    · have hold := h.backfills _ _ hc
      rw [heq]
      exact h.setCall hold fun batch hb => absurd hb (getNext_not_batching _ batch)
    · rw [heq]
      refine h.setCall (fun b hb hk hw => ?_) fun batch hb => nomatch hb
      obtain ⟨rfl, rfl, hseen⟩ := mem_onHit hb
      subst hk
      rw [hseen] at hw
      rw [← hv]
      exact h.holds _ hw
  | batch hc hph hasked =>
    have hold := h.backfills _ _ hc
    refine h.setCall hold fun batch hb a ha hw => ?_
    obtain rfl := CachePhase.batching.inj hb
    rcases hasked _ ha with ha | ha
    · exact h.answers _ _ _ hc hph a ha hw
    · have hval : a = s.ask _ k := Option.some.inj (Prod.mk.inj ha).2
      rw [hval] at hw ⊢
      exact h.holds _ hw
  | collect hc hph =>
    refine h.setCall (fun b hb hk hw => ?_) fun batch hb a ha => ?_
    · rcases List.mem_append.mp hb with hb | hb
      · exact h.backfills _ _ hc b hb hk hw
      · obtain ⟨⟨key, answer⟩, he, hb⟩ := List.mem_flatMap.mp hb
        have hmem := mem_tierResults ((OrdMap.get?_eq_some _ _ _).mpr he)
        cases hv : answer.value with
        | none => simp [hv] at hb
        | some v =>
          simp only [hv] at hb
          obtain ⟨rfl, rfl, hseen⟩ := mem_onHit hb
          subst hk
          rw [hseen] at hw
          rw [← hv]
          exact h.answers _ _ _ hc hph answer hmem hw
    · cases batchNext_asked hb _ ha
  | write hc hop he hleft hpend hph =>
    have hold := h.backfills _ _ hc
    refine (h.apply fun hk hw => ?_).setCall hold fun batch hb => absurd hb (hph batch)
    subst hk
    rw [he]
    exact hwrite _ _ _ rfl hc hop hw
  | remainingTtl hc hb hst =>
    exact h.setCall (h.set_backfill hc hb ⟨rfl, rfl, rfl⟩) fun batch hph => h.answers _ _ batch hc hph
  | backfillSet hc hb hst ht =>
    refine (h.store fun hk hw => ?_).setCall (h.set_backfill hc hb ⟨rfl, rfl, rfl⟩)
      fun batch hph => h.answers _ _ batch hc hph
    exact hfill _ _ _ _ _ rfl hc hb hk hw

end Tracks

/-! ## Calls go on -/

section Calls

variable {config : MultiTierCacheConfig} {s s' : MultiTierCache κ V} {a : CacheAction κ V}

omit [DecidableEq κ] in
theorem writes_unique {op : CacheOp κ V} {k k' : κ} (h : op.Writes k) (h' : op.Writes k') : k = k' := by
  cases op with
  | get key => cases h
  | getBatch keys => cases h
  | set key value ttlSeconds => exact h.symm.trans h'
  | delete key => exact h.symm.trans h'

theorem applied_mono (hs : Stepped config s a s') {k : κ} {w : Nat} (hw : w ∈ s.applied t k) :
    w ∈ s'.applied t k := by
  cases hs with
  | @write p t' c key e => exact (s.mem_applied_apply p t' key e t k w).mpr (.inr hw)
  | call => exact hw
  | get => exact hw
  | batch => exact hw
  | collect => exact hw
  | remainingTtl => exact hw
  | backfillSet => exact hw

theorem calls_of_ne (hs : Stepped config s a s') {q : Nat} (hq : q ≠ a.of) : s'.calls q = s.calls q := by
  cases hs with
  | call => exact setCall_calls_ne _ _ _ hq
  | get => exact setCall_calls_ne _ _ _ hq
  | batch => exact setCall_calls_ne _ _ _ hq
  | collect => exact setCall_calls_ne _ _ _ hq
  | write => exact setCall_calls_ne _ _ _ hq
  | remainingTtl => exact setCall_calls_ne _ _ _ hq
  | backfillSet => exact setCall_calls_ne _ _ _ hq

theorem start_of_none (hs : Stepped config s a s') (hc : s.calls a.of = none) :
    ∃ op, a = .call a.of op ∧ s'.calls a.of = some { op, phase := config.start op } := by
  cases hs with
  | call => exact ⟨_, rfl, setCall_calls_self ..⟩
  | get hc' => cases hc.symm.trans hc'
  | batch hc' => cases hc.symm.trans hc'
  | collect hc' => cases hc.symm.trans hc'
  | write hc' => cases hc.symm.trans hc'
  | remainingTtl hc' => cases hc.symm.trans hc'
  | backfillSet hc' => cases hc.symm.trans hc'

theorem call_kept (hs : Stepped config s a s') {q : Nat} (hc : s.calls q = some c) :
    ∃ c', s'.calls q = some c' ∧ c'.op = c.op ∧ (c.phase = .resolved → c'.phase = .resolved) := by
  by_cases hq : q = a.of
  · subst hq
    cases hs with
    | call hnone => cases hnone.symm.trans hc
    | get hc' hop hph =>
      obtain rfl := Option.some.inj (hc.symm.trans hc')
      refine ⟨_, setCall_calls_self .., ?_, fun hr => nomatch hph.symm.trans hr⟩
      rcases getFromTier_cases config s _ _ _ c with heq | ⟨v, -, heq⟩ <;> rw [heq]
    | batch hc' hph =>
      obtain rfl := Option.some.inj (hc.symm.trans hc')
      exact ⟨_, setCall_calls_self .., rfl, fun hr => nomatch hph.symm.trans hr⟩
    | collect hc' hph =>
      obtain rfl := Option.some.inj (hc.symm.trans hc')
      exact ⟨_, setCall_calls_self .., rfl, fun hr => nomatch hph.symm.trans hr⟩
    | write hc' hop he hleft =>
      obtain rfl := Option.some.inj (hc.symm.trans hc')
      refine ⟨_, setCall_calls_self .., rfl, fun hr => ?_⟩
      rw [hr] at hleft
      cases hleft
    | remainingTtl hc' =>
      obtain rfl := Option.some.inj (hc.symm.trans hc')
      exact ⟨_, setCall_calls_self .., rfl, id⟩
    | backfillSet hc' =>
      obtain rfl := Option.some.inj (hc.symm.trans hc')
      exact ⟨_, setCall_calls_self .., rfl, id⟩
  · exact ⟨c, (calls_of_ne hs hq).trans hc, rfl, id⟩

theorem pending_kept (hs : Stepped config s a s') {w : Nat} {k : κ}
    (hc : s.calls w = some c) (hk : c.op.Writes k) (ht : (config.tier t).isSome) (hp : c.phase.Pending t) :
    w ∈ s'.applied t k ∨ ∃ c', s'.calls w = some c' ∧ c'.phase.Pending t := by
  by_cases hq : w = a.of
  · subst hq
    cases hs with
    | call hnone => cases hnone.symm.trans hc
    | get hc' hop hph =>
      obtain rfl := Option.some.inj (hc.symm.trans hc')
      rw [hph] at hp
      cases hp
    | batch hc' hph =>
      obtain rfl := Option.some.inj (hc.symm.trans hc')
      rw [hph] at hp
      cases hp
    | collect hc' hph =>
      obtain rfl := Option.some.inj (hc.symm.trans hc')
      rw [hph] at hp
      cases hp
    | @write p t' _ key e _ hc' hop he hleft hpend =>
      obtain rfl := Option.some.inj (hc.symm.trans hc')
      obtain rfl := writes_unique hop hk
      rcases hpend t ht hp with rfl | hp
      · exact .inl ((s.mem_applied_apply p t key e t key p).mpr (.inl ⟨rfl, rfl, rfl⟩))
      · exact .inr ⟨_, setCall_calls_self .., hp⟩
    | remainingTtl hc' =>
      obtain rfl := Option.some.inj (hc.symm.trans hc')
      exact .inr ⟨_, setCall_calls_self .., hp⟩
    | backfillSet hc' =>
      obtain rfl := Option.some.inj (hc.symm.trans hc')
      exact .inr ⟨_, setCall_calls_self .., hp⟩
  · exact .inr ⟨c, (calls_of_ne hs hq).trans hc, hp⟩

theorem pending_start {op : CacheOp κ V} {k : κ} (hk : op.Writes k) {p : Nat}
    (hok : NothingSuperseded config s (.call p op)) (ht : (config.tier t).isSome) :
    (config.start op).Pending t := by
  cases op with
  | get key => cases hk
  | getBatch keys => cases hk
  | set key value ttlSeconds =>
    refine pending_setNext ht ?_
    cases t with
    | l1 => exact .inl (List.mem_filter.mpr ⟨by simp, ht⟩)
    | l2 => exact .inl (List.mem_filter.mpr ⟨by simp, ht⟩)
    | l3 => exact .inr rfl
  | delete key =>
    refine pending_deleteNext (List.mem_filter.mpr ⟨by cases t <;> simp, ?_⟩)
    obtain ⟨tier, htier⟩ := Option.isSome_iff_exists.mp ht
    simp [htier, hok t tier htier]

end Calls

/-! ## The call that decides -/

structure Decides (config : MultiTierCacheConfig) (w : Nat) (op : CacheOp κ V) (k : κ) (s : MultiTierCache κ V) :
    Prop where
  call : ∃ c, s.calls w = some c ∧ c.op = op
  pending : ∀ t, (config.tier t).isSome → w ∈ s.applied t k ∨ ∃ c, s.calls w = some c ∧ c.phase.Pending t
  tracks : Tracks w k (· = op.leaves) s
  quiet : ∀ p c, s.calls p = some c → p ≠ w → c.op.Writes k → c.phase = .resolved

section Decides

variable {config : MultiTierCacheConfig} {w : Nat} {op : CacheOp κ V} {k : κ} {s s' : MultiTierCache κ V}
  {a : CacheAction κ V}

theorem Decides.step (h : Decides config w op k s) (hk : op.Writes k) (hok : NothingSuperseded config s a)
    (hs : Stepped config s a s') (hno : ∀ p op', a = .call p op' → ¬ op'.Writes k) : Decides config w op k s' where
  call := by
    obtain ⟨c, hc, hop⟩ := h.call
    obtain ⟨c', hc', hop', -⟩ := call_kept hs hc
    exact ⟨c', hc', hop'.trans hop⟩
  pending t ht := by
    rcases h.pending t ht with hw | ⟨c, hc, hp⟩
    · exact .inl (applied_mono hs hw)
    · obtain ⟨c₀, hc₀, rfl⟩ := h.call
      obtain rfl := Option.some.inj (hc.symm.trans hc₀)
      exact pending_kept hs hc hk ht hp
  tracks := by
    refine h.tracks.step hs ?_ ?_
    · rintro p t c rfl hc hck -
      obtain ⟨c₀, hc₀, rfl⟩ := h.call
      by_cases hp : p = w
      · subst hp
        rw [Option.some.inj (hc.symm.trans hc₀)]
      · -- Another call that writes `k` has resolved, so it has nothing left to write.
        have hr := h.quiet p c hc hp hck
        cases hs with
        | write hc' hop he hleft =>
          obtain rfl := Option.some.inj (hc.symm.trans hc')
          rw [hr] at hleft
          cases hleft
        | batch hc' hph =>
          obtain rfl := Option.some.inj (hc.symm.trans hc')
          cases hph.symm.trans hr
    · rintro p j t c b rfl hc hb rfl hw
      exact h.tracks.backfills p c hc b (List.mem_of_getElem? hb) rfl (hok c b hc hb hw)
  quiet p c hc hne hck := by
    by_cases hp : s.calls p = none
    · have hof : p = a.of := by
        by_contra hof
        rw [calls_of_ne hs hof, hp] at hc
        cases hc
      subst hof
      obtain ⟨op', ha, hc'⟩ := start_of_none hs hp
      obtain rfl := Option.some.inj (hc'.symm.trans hc)
      exact absurd hck (hno _ _ ha)
    · obtain ⟨c₀, hc₀⟩ := Option.ne_none_iff_exists'.mp hp
      obtain ⟨c', hc', hop', hr⟩ := call_kept hs hc₀
      obtain rfl := Option.some.inj (hc.symm.trans hc')
      exact hr (h.quiet p c₀ hc₀ hne (hop' ▸ hck))

variable {tiers : TierName → κ → Option (CacheEntry V)}

theorem unseen {es : List (CacheAction κ V)}
    (hr : Run (StepsFresh config) (fresh tiers) es s) (hw : s.calls w = none) : Tracks w k (fun _ => False) s := by
  refine hr.invariant (fun s => s.calls w = none → Tracks w k (fun _ => False) s) (fun _ => ?_) ?_ hw
  · exact ⟨fun _ h => (nomatch h), fun _ _ h => (nomatch h), fun _ _ _ h => (nomatch h)⟩
  · intro s a s' ih hs hw'
    have hs := step_stepped hs.2
    have hw : s.calls w = none := by
      by_contra hne
      obtain ⟨c, hc⟩ := Option.ne_none_iff_exists'.mp hne
      obtain ⟨c', hc', -⟩ := call_kept hs hc
      cases hw'.symm.trans hc'
    refine (ih hw).step hs ?_ fun p j t c b _ _ _ _ hap => (ih hw).holds t hap
    rintro p t c - hc - (rfl | hap)
    · cases hw.symm.trans hc
    · exact (ih hw).holds t hap

theorem decides_start {es : List (CacheAction κ V)}
    (hr : Run (StepsFresh config) (fresh tiers) es s)
    (hq : ∀ p call, s.calls p = some call → call.op.Writes k → call.phase = .resolved) (hk : op.Writes k)
    (hs : StepsFresh config s (.call w op) s') : Decides config w op k s' := by
  have hst := step_stepped hs.2
  cases hst with
  | call hnone =>
    have hun := unseen (k := k) hr hnone
    refine ⟨⟨_, setCall_calls_self .., rfl⟩, fun t ht => .inr ⟨_, setCall_calls_self .., ?_⟩, ?_, fun p c hc hne => ?_⟩
    · exact pending_start hk hs.1 ht
    · have hleave : Tracks w k (· = op.leaves) s :=
        ⟨fun t h => (hun.holds t h).elim, fun p c hc b hb hbk h => (hun.backfills p c hc b hb hbk h).elim,
          fun p c b hc hph x hx h => (hun.answers p c b hc hph x hx h).elim⟩
      exact hleave.setCall (fun b hb => nomatch hb) fun batch hb x hx => nomatch start_asked hb _ hx
    · obtain ⟨hpw, -⟩ | ⟨-, hc⟩ := s.setCall_cases w _ hc
      · exact absurd hpw hne
      · exact hq p c hc
  | batch hc hph =>
    have hnone : s.calls w = none := by
      have h := hs.2
      dsimp only [step] at h
      split at h
      · assumption
      · cases h
    cases hnone.symm.trans hc

end Decides

/-! ## The get that follows -/

/-- A get of `k` after `op` is in every tier: the tiers it has passed are not configured where `op` left a
value, its answer is what `op` left, and its backfill has nowhere to write. -/
structure Follows (config : MultiTierCacheConfig) (op : CacheOp κ V) (k : κ) (c : CacheCall κ V) : Prop where
  get : c.op = .get k
  phase : (∃ t ts, c.phase = .getting (t :: ts) ∧ (t :: ts) <:+ [.l1, .l2, .l3] ∧
      (op.leaves ≠ none → ∃ t' ∈ t :: ts, (config.tier t').isSome) ∧
      (op.leaves ≠ none → ∀ t', (config.tier t').isSome → t' ∈ t :: ts)) ∨
    c.phase = .answered op.leaves
  backfills : ∀ b ∈ c.backfills, b.settled ∨ b.stage = .lookup ∧ config.backfillTargets b.tiers = []

/-- How many steps of its own a get has left. -/
def work (c : CacheCall κ V) : Nat :=
  (match c.phase with | .getting ts => ts.length + 1 | _ => 0) + c.backfills.countP fun b => !b.settled

section Follows

variable {config : MultiTierCacheConfig} {w : Nat} {op : CacheOp κ V} {k : κ} {s s' : MultiTierCache κ V}
  {a : CacheAction κ V}

omit [DecidableEq κ] in
/-- The backfill of a hit has nowhere to write when the tiers before `t` are not configured. -/
theorem onHit_follows {ts : List TierName} (hsuf : (t :: ts) <:+ [.l1, .l2, .l3])
    (hall : ∀ t', (config.tier t').isSome → t' ∈ t :: ts) (v : V) (seen : List Nat) :
    (∀ b ∈ config.onHit t k v seen, b.settled ∨ b.stage = .lookup ∧ config.backfillTargets b.tiers = []) ∧
      (config.onHit t k v seen).length ≤ 1 := by
  have hbackfill : ∀ tiers source, config.backfillTargets tiers = [] →
      (∀ b ∈ (config.backfill k v tiers source seen).toList,
        b.settled ∨ b.stage = .lookup ∧ config.backfillTargets b.tiers = []) ∧
      (config.backfill k v tiers source seen).toList.length ≤ 1 := by
    intro tiers source hnone
    refine ⟨fun b hb => ?_, Option.length_toList_le⟩
    rw [Option.mem_toList] at hb
    unfold MultiTierCacheConfig.backfill at hb
    split at hb
    · obtain rfl := Option.some.inj hb
      by_cases httl : (config.tier source).any CacheTier.getRemainingTtlSeconds
      · exact .inr ⟨if_pos httl, hnone⟩
      · exact .inl (by simp [Backfill.settled, httl, hnone])
    · cases hb
  have hno : ∀ t', t' ∉ t :: ts → (config.tier t').isSome = false := fun t' ht' => by
    simpa using mt (hall t') ht'
  cases t with
  | l1 =>
    refine ⟨fun b hb => ?_, Nat.zero_le _⟩
    cases hb
  | l2 =>
    obtain rfl : ts = [.l3] := by simpa [List.suffix_cons_iff] using hsuf
    exact hbackfill _ _ (by simp [MultiTierCacheConfig.backfillTargets, hno .l1])
  | l3 =>
    obtain rfl : ts = [] := by simpa [List.suffix_cons_iff] using hsuf
    exact hbackfill _ _ (by simp [MultiTierCacheConfig.backfillTargets, hno .l1, hno .l2])

omit [DecidableEq κ] in
theorem Follows.getFromTier {key : κ} {ts : List TierName}
    (h : Follows config op k c) (hop : c.op = .get key) (hph : c.phase = .getting (t :: ts))
    (htaken : ∀ t, (config.tier t).isSome → (s.ask t k).value = op.leaves) :
    Follows config op k (config.getFromTier s key t ts c) ∧ work (config.getFromTier s key t ts c) < work c := by
  obtain rfl : k = key := CacheOp.get.inj (h.get.symm.trans hop)
  obtain ⟨t₀, ts₀, hph₀, hsuf, hsome, hall⟩ | hph₀ := h.phase
  case inr => cases hph.symm.trans hph₀
  obtain ⟨rfl, rfl⟩ := List.cons.inj (CachePhase.getting.inj (hph.symm.trans hph₀))
  have hnext : (op.leaves ≠ none → config.tier t = none) →
      Follows config op k { c with phase := MultiTierCacheConfig.getNext ts } ∧
        work { c with phase := MultiTierCacheConfig.getNext ts } < work c := by
    intro hmiss
    cases ts with
    | nil =>
      refine ⟨⟨h.get, .inr ?_, h.backfills⟩, ?_⟩
      · by_contra hne
        have hleft : op.leaves ≠ none := fun hn => hne (by rw [hn]; rfl)
        obtain ⟨t', ht', hcfg⟩ := hsome hleft
        obtain rfl := List.mem_singleton.mp ht'
        rw [hmiss hleft] at hcfg
        cases hcfg
      · simp only [work, hph, MultiTierCacheConfig.getNext, List.length_cons]
        omega
    | cons t₁ ts =>
      have hkeep : op.leaves ≠ none → ∀ t', (config.tier t').isSome → t' ∈ t₁ :: ts := by
        intro hleft t' ht'
        rcases List.mem_cons.mp (hall hleft t' ht') with rfl | hmem
        · rw [hmiss hleft] at ht'
          cases ht'
        · exact hmem
      refine ⟨⟨h.get, .inl ⟨t₁, ts, rfl, (List.suffix_cons t _).trans hsuf, fun hleft => ?_, hkeep⟩, h.backfills⟩, ?_⟩
      · obtain ⟨t', -, hcfg⟩ := hsome hleft
        exact ⟨t', hkeep hleft t' hcfg, hcfg⟩
      · simp only [work, hph, MultiTierCacheConfig.getNext, List.length_cons]
        omega
  unfold MultiTierCacheConfig.getFromTier
  split
  · rename_i hcfg
    exact hnext fun _ => hcfg
  · rename_i tier hcfg
    have hval := htaken t (by rw [hcfg]; rfl)
    split
    · rename_i hnone
      exact hnext fun hleft => absurd (hval.symm.trans hnone) hleft
    · rename_i v hv
      have hleft : op.leaves = some v := hval.symm.trans hv
      obtain ⟨hb, hlen⟩ := onHit_follows (k := k) hsuf (hall (by rw [hleft]; exact nofun)) v (s.ask t k).seen
      refine ⟨⟨h.get, .inr (by rw [hleft]), hb⟩, ?_⟩
      have hcount := (List.countP_le_length (p := fun b : Backfill κ V => !b.settled)).trans hlen
      simp only [work, hph, List.length_cons]
      omega

omit [DecidableEq κ] in
theorem Follows.lookedUp {j : Nat} {b : Backfill κ V} (h : Follows config op k c)
    (hb : c.backfills[j]? = some b) (hst : b.stage = .lookup) (remaining : Option Rat) :
    let b' := { b with stage := config.afterRemainingTtl b.tiers remaining }
    Follows config op k { c with backfills := c.backfills.set j b' } ∧
      work { c with backfills := c.backfills.set j b' } < work c := by
  intro b'
  have hunset : b.settled = false := by simp only [Backfill.settled, hst]
  have htargets := ((h.backfills b (List.mem_of_getElem? hb)).resolve_left (by simp [hunset])).2
  have hset : b'.settled = true := by
    unfold b' MultiTierCacheConfig.afterRemainingTtl
    split
    · rfl
    · split
      · rfl
      · rw [htargets]
        rfl
  refine ⟨⟨h.get, h.phase, fun x hx => ?_⟩, ?_⟩
  · rcases List.mem_or_eq_of_mem_set hx with hx | rfl
    · exact h.backfills x hx
    · exact .inl hset
  · obtain ⟨hj, hget⟩ := List.getElem?_eq_some_iff.mp hb
    have hpos : 0 < c.backfills.countP fun b => !b.settled :=
      List.countP_pos_iff.mpr ⟨b, List.mem_of_getElem? hb, by rw [hunset]; rfl⟩
    simp only [work, List.countP_set hj, hget, hunset, hset]
    simp only [Bool.not_false, Bool.not_true, if_true, Bool.false_eq_true, if_false]
    omega

theorem Follows.step {g : Nat} (h : Follows config op k c) (hc : s.calls g = some c)
    (hs : Stepped config s a s') (ha : a.of = g)
    (htaken : ∀ t, (config.tier t).isSome → (s.ask t k).value = op.leaves) :
    ∃ c', s'.calls g = some c' ∧ Follows config op k c' ∧ work c' < work c := by
  subst ha
  cases hs with
  | call hnone => cases hnone.symm.trans hc
  | get hc' hop hph =>
    obtain rfl := Option.some.inj (hc.symm.trans hc')
    exact ⟨_, setCall_calls_self .., h.getFromTier hop hph htaken⟩
  | batch hc' hph =>
    obtain rfl := Option.some.inj (hc.symm.trans hc')
    rcases h.phase with ⟨t, ts, hph', -⟩ | hph' <;> cases hph.symm.trans hph'
  | collect hc' hph =>
    obtain rfl := Option.some.inj (hc.symm.trans hc')
    rcases h.phase with ⟨t, ts, hph', -⟩ | hph' <;> cases hph.symm.trans hph'
  | write hc' hop =>
    obtain rfl := Option.some.inj (hc.symm.trans hc')
    rw [h.get] at hop
    cases hop
  | remainingTtl hc' hb hst =>
    obtain rfl := Option.some.inj (hc.symm.trans hc')
    exact ⟨_, setCall_calls_self .., h.lookedUp hb hst _⟩
  | backfillSet hc' hb hst ht =>
    obtain rfl := Option.some.inj (hc.symm.trans hc')
    -- A backfill of this get that has begun to write has nothing left.
    rcases h.backfills _ (List.mem_of_getElem? hb) with hset | ⟨hlook, -⟩
    · simp only [Backfill.settled, hst, List.isEmpty_iff] at hset
      subst hset
      cases ht
    · cases hst.symm.trans hlook

theorem Follows.enabled {g : Nat} (h : Follows config op k c) (hc : s.calls g = some c)
    (hans : c.answer = none) : ∃ a s', a.of = g ∧ StepsFresh config s a s' := by
  rcases h.phase with ⟨t, ts, hph, -⟩ | hph
  · exact ⟨.get g, _, rfl, trivial, by simp only [MultiTierCache.step, hc, Option.bind_some, stepGet, h.get, hph]; rfl⟩
  · simp only [CacheCall.answer, hph] at hans
    split at hans
    · cases hans
    · rename_i hall
      simp only [List.all_eq_true, not_forall] at hall
      obtain ⟨b, hb, hset⟩ := hall
      obtain ⟨hst, -⟩ := (h.backfills b hb).resolve_left hset
      obtain ⟨j, hj⟩ := List.getElem?_of_mem hb
      refine ⟨.remainingTtl g j none, s.setCall g { c with
        backfills := c.backfills.set j { b with stage := .skipped } }, rfl, trivial, ?_⟩
      simp [MultiTierCache.step, hc, stepRemainingTtl, hj, hst, MultiTierCacheConfig.afterRemainingTtl]

end Follows

/-! ## The run -/

section Run

variable {config : MultiTierCacheConfig} {w g : Nat} {op : CacheOp κ V} {k : κ} {s s' : MultiTierCache κ V}

/-- Once `w` has resolved, what a later get has done so far: nothing, or steps that brought it nearer. -/
structure Resolved (config : MultiTierCacheConfig) (w g : Nat) (op : CacheOp κ V) (k : κ)
    (es : List (CacheAction κ V)) (s : MultiTierCache κ V) : Prop where
  decides : Decides config w op k s
  taken : ∀ t, (config.tier t).isSome → w ∈ s.applied t k
  later : ∀ c, s.calls g = some c → c.op = .get k → Follows config op k c ∧ es.countP (·.of = g) + work c ≤ 5
  notYet : s.calls g = none → es.countP (·.of = g) = 0

theorem start_follows (hset : op.leaves ≠ none → ∃ t, (config.tier t).isSome) :
    Follows config op k { op := .get k, phase := config.start (.get k) : CacheCall κ V } where
  get := rfl
  phase := by
    have hmem : ∀ t : TierName, t ∈ [TierName.l1, .l2, .l3] := fun t => by cases t <;> simp
    refine .inl ⟨.l1, [.l2, .l3], rfl, List.suffix_rfl, fun hleft => ?_, fun _ t _ => hmem t⟩
    obtain ⟨t, ht⟩ := hset hleft
    exact ⟨t, hmem t, ht⟩
  backfills b hb := nomatch hb

theorem none_of_none (hs : Stepped config s a s') (h : s'.calls g = none) : s.calls g = none := by
  by_contra hne
  obtain ⟨c, hc⟩ := Option.ne_none_iff_exists'.mp hne
  obtain ⟨c', hc', -⟩ := call_kept hs hc
  cases h.symm.trans hc'

variable {es : List (CacheAction κ V)}

theorem Resolved.step (h : Resolved config w g op k es s)
    (hk : op.Writes k) (hset : op.leaves ≠ none → ∃ t, (config.tier t).isSome) (hs : StepsFresh config s a s')
    (hno : ∀ p op', a = .call p op' → ¬ op'.Writes k) : Resolved config w g op k (es ++ [a]) s' := by
  have hst := step_stepped hs.2
  have hcount : (es ++ [a]).countP (·.of = g) = es.countP (·.of = g) + if a.of = g then 1 else 0 := by
    simp [List.countP_append, List.countP_cons]
  refine ⟨h.decides.step hk hs.1 hst hno, fun t ht => applied_mono hst (h.taken t ht), fun c' hc' hget => ?_,
    fun hnone => ?_⟩
  · rw [hcount]
    by_cases ha : a.of = g
    · rw [if_pos ha]
      cases hc : s.calls g with
      | none =>
        obtain ⟨op', -, hcall⟩ := start_of_none hst (ha ▸ hc)
        obtain rfl := Option.some.inj ((ha ▸ hcall).symm.trans hc')
        obtain rfl : op' = .get k := hget
        refine ⟨start_follows hset, ?_⟩
        rw [h.notYet hc]
        exact Nat.le_refl 5
      | some c =>
        obtain ⟨c₁, hc₁, hop, -⟩ := call_kept hst hc
        obtain rfl := Option.some.inj (hc₁.symm.trans hc')
        obtain ⟨hf, hwork⟩ := h.later c hc (hop.symm.trans hget)
        obtain ⟨c₂, hc₂, hf', hlt⟩ := hf.step hc hst ha fun t ht => h.decides.tracks.holds t (h.taken t ht)
        obtain rfl := Option.some.inj (hc₂.symm.trans hc')
        exact ⟨hf', by omega⟩
    · rw [if_neg ha]
      exact h.later c' ((calls_of_ne hst (Ne.symm ha)).symm.trans hc') hget
  · have hc := none_of_none hst hnone
    rw [hcount, h.notYet hc, if_neg]
    rintro rfl
    obtain ⟨op', -, hcall⟩ := start_of_none hst hc
    cases hcall.symm.trans hnone

theorem Decides.run (h : Decides config w op k s) (hk : op.Writes k)
    (hr : Run (StepsFresh config) s es s') (hno : ∀ p op', .call p op' ∈ es → ¬ op'.Writes k) :
    Decides config w op k s' := by
  induction hr with
  | nil => exact h
  | @snoc es s a s' hr hs ih =>
    refine (ih fun p op' hm => hno p op' (List.mem_append_left _ hm)).step hk hs.1 (step_stepped hs.2) ?_
    rintro p op' rfl
    exact hno p op' (List.mem_append_right _ List.mem_cons_self)

theorem Resolved.run (h : Resolved config w g op k [] s) (hk : op.Writes k)
    (hset : op.leaves ≠ none → ∃ t, (config.tier t).isSome) (hr : Run (StepsFresh config) s es s')
    (hno : ∀ p op', .call p op' ∈ es → ¬ op'.Writes k) : Resolved config w g op k es s' := by
  induction hr with
  | nil => exact h
  | @snoc es s a s' hr hs ih =>
    refine (ih fun p op' hm => hno p op' (List.mem_append_left _ hm)).step hk hset hs ?_
    rintro p op' rfl
    exact hno p op' (List.mem_append_right _ List.mem_cons_self)

theorem called_in (hr : Run (StepsFresh config) s es s') {op' : CacheOp κ V}
    (hg : .call g op' ∈ es) : s.calls g = none ∧ ∃ c, s'.calls g = some c ∧ c.op = op' := by
  induction hr with
  | nil => cases hg
  | @snoc es s₁ a s₂ hr hs ih =>
    have hst := step_stepped hs.2
    rcases List.mem_append.mp hg with hg | hg
    · obtain ⟨hnone, c, hc, hop⟩ := ih hg
      obtain ⟨c', hc', hop', -⟩ := call_kept hst hc
      exact ⟨hnone, c', hc', hop'.trans hop⟩
    · obtain rfl := List.mem_singleton.mp hg
      have hnone : s₁.calls g = none := by
        have h := hs.2
        dsimp only [MultiTierCache.step] at h
        split at h
        · assumption
        · cases h
      obtain ⟨op₂, heq, hc⟩ := start_of_none hst hnone
      obtain ⟨-, rfl⟩ := CacheAction.call.inj heq
      refine ⟨?_, _, hc, rfl⟩
      refine hr.invariant (fun t => t.calls g = none → s.calls g = none) id (fun t b t' h hs hn => ?_) hnone
      exact h (none_of_none (step_stepped hs.2) hn)

/-- Where no backfill writes a value to a tier that a set or delete has reached and the source of the
value had not, what a set or delete left is what every later get returns. -/
theorem no_resurrection (config : MultiTierCacheConfig) :
    NoResurrection (κ := κ) (V := V) (StepsFresh config) := by
  intro tiers es₁ es₂ es₃ s₁ s₁' s₂ s₃ w op k g h₁ hq hk hw h₂ hres h₃ hno hg
  have hset : op.leaves ≠ none → ∃ t, (config.tier t).isSome := by
    intro hleft
    cases op with
    | get key => cases hk
    | getBatch keys => cases hk
    | set key value ttlSeconds => exact hw.1
    | delete key => exact absurd rfl hleft
  have hd := (decides_start h₁ hq hk hw).run hk h₂ fun p op' hm => hno p op' (List.mem_append_left _ hm)
  have htaken : ∀ t, (config.tier t).isSome → w ∈ s₂.applied t k := by
    intro t ht
    refine (hd.pending t ht).resolve_right ?_
    rintro ⟨c, hc, hp⟩
    rw [hc] at hres
    rw [Option.some.inj hres] at hp
    cases hp
  obtain ⟨hnone, c, hc, hop⟩ := called_in h₃ hg
  have hrun : Resolved config w g op k es₃ s₃ :=
    Resolved.run ⟨hd, htaken, fun c hc => (nomatch hnone.symm.trans hc), fun _ => rfl⟩ hk hset h₃
      fun p op' hm => hno p op' (List.mem_append_right _ hm)
  obtain ⟨hf, hwork⟩ := hrun.later c hc hop
  refine ⟨c, hc, fun r hr => ?_, hf.enabled hc, by omega⟩
  rcases hf.phase with ⟨t, ts, hph, -⟩ | hph
  · simp [CacheCall.answer, hph] at hr
  · simp only [CacheCall.answer, hph] at hr
    split at hr
    · exact (Option.some.inj hr).symm
    · cases hr

end Run

/-- A memory tier over a shared tier that reports the remaining time of its entries. -/
def twoTiers : MultiTierCacheConfig where
  l1 := some { getRemainingTtlSeconds := false, delete := true, getBatch := false }
  l2 := none
  l3 := some { getRemainingTtlSeconds := true, delete := true, getBatch := true }

def oldInShared : TierName → String → Option (CacheEntry String)
  | .l3, "k" => some ⟨"old", 60⟩
  | _, _ => none

theorem reader_quiet {s : MultiTierCache String String} {k : String} (hget : ∃ c, s.calls 0 = some c ∧ c.op = .get k)
    (hnone : ∀ p, s.calls (p + 1) = none) :
    ∀ p call, s.calls p = some call → call.op.Writes k → call.phase = .resolved := by
  intro p call hc hw
  cases p with
  | zero =>
    obtain ⟨c, hc₀, hop⟩ := hget
    obtain rfl := Option.some.inj (hc.symm.trans hc₀)
    rw [hop] at hw
    cases hw
  | succ p => cases hc.symm.trans (hnone p)

/-- While a set of the key is under way, a get fills the memory tier, which the set then reaches. The next get returns the
value of the set. -/
theorem no_resurrection_set : ∃ s₁ s₁' s₂ s₃ : MultiTierCache String String,
    Run (StepsFresh twoTiers) (fresh oldInShared)
      [.call 0 (.get "k"), .get 0, .get 0, .get 0, .remainingTtl 0 0 (some 60)] s₁ ∧
    StepsFresh twoTiers s₁ (.call 1 (.set "k" "new" none)) s₁' ∧
    Run (StepsFresh twoTiers) s₁' [.backfillSet 0 0 .l1, .write 1 .l1, .write 1 .l3] s₂ ∧
    Run (StepsFresh twoTiers) s₂ [.call 2 (.get "k"), .get 2] s₃ ∧
    ∃ call, s₃.calls 2 = some call ∧ ∀ r, call.answer = some r → r = some "new" := by
  have h₁ : Run (StepsFresh twoTiers) (fresh oldInShared)
      [.call 0 (.get "k"), .get 0, .get 0, .get 0, .remainingTtl 0 0 (some 60)] _ :=
    .cons ⟨trivial, rfl⟩ (.cons ⟨trivial, rfl⟩ (.cons ⟨trivial, rfl⟩ (.cons ⟨trivial, rfl⟩ (.cons ⟨trivial, rfl⟩ .nil))))
  refine ⟨_, _, _, _, h₁, ⟨⟨.l1, rfl⟩, rfl⟩,
    .cons ⟨fun c b hc hb => List.nil_subset _, rfl⟩ (.cons ⟨trivial, rfl⟩ (.cons ⟨trivial, rfl⟩ .nil)),
    .cons ⟨trivial, rfl⟩ (.cons ⟨trivial, rfl⟩ .nil), ?_⟩
  obtain ⟨call, hc, hans, -⟩ := no_resurrection twoTiers oldInShared _ [.backfillSet 0 0 .l1, .write 1 .l1, .write 1 .l3]
    [.call 2 (.get "k"), .get 2] _ _ _ _ 1 (.set "k" "new" none) "k" 2 h₁
    (reader_quiet ⟨_, rfl, rfl⟩ fun _ => rfl) rfl ⟨⟨.l1, rfl⟩, rfl⟩
    (.cons ⟨fun c b hc hb => List.nil_subset _, rfl⟩ (.cons ⟨trivial, rfl⟩ (.cons ⟨trivial, rfl⟩ .nil))) rfl
    (.cons ⟨trivial, rfl⟩ (.cons ⟨trivial, rfl⟩ .nil)) (by simp [CacheOp.Writes]) List.mem_cons_self
  exact ⟨call, hc, hans⟩

/-- A get has read the shared tier and is about to fill the memory tier; a set of the key begins. -/
def beforeSet : MultiTierCache String String :=
  ([.call 0 (.get "k"), .get 0, .get 0, .get 0, .remainingTtl 0 0 (some 60)].foldlM (step twoTiers)
    (fresh oldInShared)).getD (fresh oldInShared)

def duringSet : MultiTierCache String String :=
  (beforeSet.step twoTiers (.call 1 (.set "k" "new" none))).getD beforeSet

def afterSet : MultiTierCache String String :=
  ([.write 1 .l1, .write 1 .l3].foldlM (step twoTiers) duringSet).getD duringSet

/-- The value read before the set is written back after it. -/
theorem stale_backfill_resurrects : ¬ NoResurrection (κ := String) (V := String) (Steps twoTiers) := by
  intro h
  have h₁ : Run (Steps twoTiers) (fresh oldInShared)
      [.call 0 (.get "k"), .get 0, .get 0, .get 0, .remainingTtl 0 0 (some 60)] beforeSet :=
    .cons rfl (.cons rfl (.cons rfl (.cons rfl (.cons rfl .nil))))
  have h₂ : Run (Steps twoTiers) duringSet [.write 1 .l1, .write 1 .l3] afterSet := .cons rfl (.cons rfl .nil)
  have h₃ : Run (Steps twoTiers) afterSet [.backfillSet 0 0 .l1, .call 2 (.get "k"), .get 2] _ :=
    .cons rfl (.cons rfl (.cons rfl .nil))
  obtain ⟨call, hc, hans, -⟩ := h oldInShared _ _ _ _ _ _ _ 1 (.set "k" "new" none) "k" 2 h₁
    (reader_quiet ⟨_, rfl, rfl⟩ fun _ => rfl) rfl rfl h₂ rfl h₃ (by simp [CacheOp.Writes]) (List.mem_cons_of_mem _ List.mem_cons_self)
  obtain rfl := Option.some.inj hc
  exact absurd (Option.some.inj (hans (some "old") rfl)) (by decide)

end MultiTierCache

end Veryfront.Cache
