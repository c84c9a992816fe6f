import Veryfront.Lib.Table
import Veryfront.Proxy.TokenManager

/-!
# What an invalidation leaves

A call that begins after an invalidation was called gets no token whose fetch began before it, as long as no request is replaced
whose cache write is in flight and which nothing has aborted.
-/

namespace Veryfront.Proxy.Tokens

open Function Resilient Lib.Table
open Security.Egress (latinCases)

/-! ## Generations -/

namespace Generations

variable {generations generations' : Generations} {key other : Text} {generation : Generation}

structure Sound (generations : Generations) : Prop where
  positive : 0 < generations.nextKeyGeneration
  given : ∀ pair ∈ generations.keyGenerations, pair.2 < generations.nextKeyGeneration

def Had (generations : Generations) (key : Text) (generation : Generation) : Prop :=
  generation.globalGeneration < generations.globalGeneration ∨
    (generation.globalGeneration = generations.globalGeneration ∧ generation.generation ≤ (generations.current key).generation)

theorem had_current (generations : Generations) (key : Text) : generations.Had key (generations.current key) :=
  .inr ⟨rfl, Nat.le_refl _⟩

theorem Sound.current_lt (h : generations.Sound) (key : Text) :
    (generations.current key).generation < generations.nextKeyGeneration := by
  rw [current]
  cases hlookup : generations.keyGenerations.lookup key with
  | none => exact h.positive
  | some number =>
    obtain ⟨before, after, heq, -⟩ := List.lookup_eq_some_iff.mp hlookup
    exact h.given (key, number) (heq ▸ List.mem_append_right _ List.mem_cons_self)

structure Moved (generations generations' : Generations) : Prop where
  sound : generations'.Sound
  had : ∀ key generation, generations.Had key generation → generations'.Had key generation
  same : ∀ key generation, generations.Had key generation → generation = generations'.current key →
    generation = generations.current key

def Renewed (generations generations' : Generations) (key : Text) : Prop :=
  ∀ generation, generations.Had key generation → generation ≠ generations'.current key

theorem advanceGlobalGeneration_moved (h : generations.advanceGlobalGeneration = some generations') :
    generations.Moved generations' ∧ ∀ key, generations.Renewed generations' key := by
  obtain ⟨-, heq⟩ := Option.ite_none_left_eq_some.mp h
  obtain rfl := Option.some.inj heq
  have hbefore {key : Text} {generation : Generation} (hhad : generations.Had key generation) :
      generation.globalGeneration < generations.globalGeneration + 1 := by
    rcases hhad with hlt | ⟨heq, -⟩ <;> omega
  have hrenewed : ∀ key, generations.Renewed ⟨generations.globalGeneration + 1, [], 1⟩ key := by
    rintro key generation hhad rfl
    exact Nat.lt_irrefl _ (hbefore hhad)
  exact ⟨⟨⟨Nat.one_pos, nofun⟩, fun key generation hhad => .inl (hbefore hhad),
    fun key generation hhad heq => absurd heq (hrenewed key generation hhad)⟩, hrenewed⟩

theorem Moved.refl (h : generations.Sound) : generations.Moved generations := ⟨h, fun _ _ hhad => hhad, fun _ _ _ heq => heq⟩

theorem Moved.trans {generations'' : Generations} (h : generations.Moved generations') (h' : generations'.Moved generations'') :
    generations.Moved generations'' where
  sound := h'.sound
  had key generation hhad := h'.had key generation (h.had key generation hhad)
  same key generation hhad heq := h.same key generation hhad (h'.same key generation (h.had key generation hhad) heq)

theorem lookup_filter_ne (hne : other ≠ key) (entries : List (Text × Nat)) :
    (entries.filter (·.1 ≠ key)).lookup other = entries.lookup other := by
  induction entries with
  | nil => rfl
  | cons entry entries ih =>
    rw [List.filter_cons, List.lookup_cons]
    split
    · rw [List.lookup_cons, ih]
    · rename_i hkey
      have heq : entry.1 = key := by simpa using hkey
      rw [heq, beq_false_of_ne hne, ih]

theorem current_set (generations : Generations) (key other : Text) (number next : Nat) :
    (Generations.mk generations.globalGeneration ((key, number) :: generations.keyGenerations.filter (·.1 ≠ key)) next).current other =
      if other = key then ⟨generations.globalGeneration, number⟩ else generations.current other := by
  rw [current, current]
  split
  · rename_i heq
    rw [heq, List.lookup_cons_self, Option.getD_some]
  · rename_i hne
    rw [List.lookup_cons, beq_false_of_ne hne, lookup_filter_ne hne]

theorem set_moved (h : generations.Sound) (key : Text) :
    let generations' : Generations := { generations with
      keyGenerations := (key, generations.nextKeyGeneration) :: generations.keyGenerations.filter (·.1 ≠ key)
      nextKeyGeneration := generations.nextKeyGeneration + 1 }
    generations.Moved generations' ∧ generations.Renewed generations' key := by
  intro generations'
  have hcurrent (other : Text) := generations.current_set key other generations.nextKeyGeneration
    (generations.nextKeyGeneration + 1)
  have hrenewed : generations.Renewed generations' key := by
    rintro generation hhad rfl
    rw [show generations'.current key = _ from (hcurrent key).trans (if_pos rfl)] at hhad
    rcases hhad with hlt | ⟨-, hle⟩
    · exact Nat.lt_irrefl _ hlt
    · exact Nat.not_lt_of_le hle (h.current_lt key)
  refine ⟨⟨⟨Nat.succ_pos _, fun pair hmem => ?_⟩, fun other generation hhad => ?_, fun other generation hhad heq => ?_⟩, hrenewed⟩
  · rcases List.mem_cons.mp hmem with rfl | hold
    · exact Nat.lt_succ_self _
    · exact Nat.lt_succ_of_lt (h.given pair (List.mem_filter.mp hold).1)
  · refine hhad.imp_right fun ⟨hglobal, hle⟩ => ⟨hglobal, ?_⟩
    rw [show generations'.current other = _ from hcurrent other]
    split
    · exact Nat.le_trans hle (Nat.le_of_lt (h.current_lt other))
    · exact hle
  · by_cases hkey : other = key
    · subst hkey
      exact absurd heq (hrenewed generation hhad)
    · rw [show generations'.current other = _ from (hcurrent other).trans (if_neg hkey)] at heq
      exact heq

theorem bumpGeneration_moved (hsound : generations.Sound) (h : generations.bumpGeneration key = some generations') :
    generations.Moved generations' ∧ generations.Renewed generations' key := by
  rw [bumpGeneration] at h
  obtain ⟨bounded, hbounded, h⟩ := Option.bind_eq_some_iff.mp h
  obtain ⟨counted, hcounted, h⟩ := Option.bind_eq_some_iff.mp h
  obtain rfl := Option.some.inj h
  have hfirst : generations.Moved bounded := by
    rw [makeRoom] at hbounded
    split at hbounded
    · exact (advanceGlobalGeneration_moved hbounded).1
    · obtain rfl := Option.some.inj hbounded
      exact .refl hsound
  have hsecond : bounded.Moved counted := by
    rw [keepCounting] at hcounted
    split at hcounted
    · exact (advanceGlobalGeneration_moved hcounted).1
    · obtain rfl := Option.some.inj hcounted
      exact .refl hfirst.sound
  obtain ⟨hset, hrenewed⟩ := set_moved hsecond.sound key
  have hmoved := hfirst.trans hsecond
  exact ⟨hmoved.trans hset, fun generation hhad => hrenewed generation (hmoved.had key generation hhad)⟩

end Generations

/-! ## Keys -/

/-- What stands in front of the value in a key. -/
def keyPrefix (scope : TokenScope) (kind : String) : Text :=
  .of "[" ++ Cache.jsonQuote (.of (scopeName scope)) ++ .of "," ++ Cache.jsonQuote (.of kind) ++ .of ","

def kinds : List String := ["project", "domain", "global"]

theorem keyPrefix_inj : (kinds.all fun kind => kinds.all fun kind' => [TokenScope.preview, .production].all fun scope =>
    [TokenScope.preview, .production].all fun scope' =>
      16 ≤ (keyPrefix scope kind).length && ((keyPrefix scope kind).take 16 ≠ (keyPrefix scope' kind').take 16 ||
        (scope = scope' && kind = kind'))) = true := by
  decide

theorem stringifyKey_inj {scope scope' : TokenScope} {kind kind' : String} {value value' : Text} (hkind : kind ∈ kinds)
    (hkind' : kind' ∈ kinds) (hvalue : ∀ u ∈ value, u < 0x10000) (hvalue' : ∀ u ∈ value', u < 0x10000)
    (h : stringifyKey scope kind value = stringifyKey scope' kind' value') : scope = scope' ∧ kind = kind' ∧ value = value' := by
  have hscopes (scope : TokenScope) : scope ∈ [TokenScope.preview, .production] := by cases scope <;> decide
  have hall {kind kind' : String} (hkind : kind ∈ kinds) (hkind' : kind' ∈ kinds) (scope scope' : TokenScope) :
      16 ≤ (keyPrefix scope kind).length ∧ ((keyPrefix scope kind).take 16 ≠ (keyPrefix scope' kind').take 16 ∨
        (scope = scope' ∧ kind = kind')) := by
    have hinj := keyPrefix_inj
    simp only [List.all_eq_true] at hinj
    have hfour := hinj kind hkind kind' hkind' scope (hscopes scope) scope' (hscopes scope')
    simpa using hfour
  have hsplit (scope : TokenScope) (kind : String) (value : Text) :
      stringifyKey scope kind value = keyPrefix scope kind ++ (Cache.jsonQuote value ++ .of "]") := by
    rw [stringifyKey, keyPrefix, List.append_assoc _ (Cache.jsonQuote value)]
  rw [hsplit, hsplit] at h
  obtain ⟨hlength, hdiffer⟩ := hall hkind hkind' scope scope'
  obtain ⟨hlength', -⟩ := hall hkind' hkind scope' scope
  have htake := congrArg (List.take 16) h
  rw [List.take_append_of_le_length hlength, List.take_append_of_le_length hlength'] at htake
  obtain ⟨rfl, rfl⟩ := hdiffer.resolve_left (not_not_intro htake)
  have hquote := List.append_cancel_right (List.append_cancel_left h)
  have hread := congrArg Cache.jsonString hquote
  rw [Cache.jsonString_jsonQuote hvalue, Cache.jsonString_jsonQuote hvalue'] at hread
  exact ⟨rfl, rfl, Option.some.inj hread⟩

variable {cases : CaseMapping} {identity identity' : Identity}

theorem normalizeIdentity_eq {value : List UInt16} {normalized : Text} (h : normalizeIdentity cases value = some normalized) :
    normalized = Text.ofUnits value := by
  obtain ⟨hvalid, heq⟩ := Option.ite_none_left_eq_some.mp h
  rw [not_or, not_not] at hvalid
  exact (Option.some.inj heq).symm.trans hvalid.1.symm

def Identity.parts (identity : Identity) : String × List UInt16 :=
  match identity.projectSlug, identity.customDomain with
  | some projectSlug, _ => ("project", projectSlug)
  | none, some customDomain => ("domain", customDomain)
  | none, none => ("global", [])

theorem getCacheKey_eq {key : Text} (h : getCacheKey cases identity = some key) :
    key = stringifyKey identity.scope identity.parts.1 (Text.ofUnits identity.parts.2) ∧ identity.parts.1 ∈ kinds ∧
      (identity.projectSlug = none ∨ identity.customDomain = none) := by
  rcases identity with ⟨scope, projectSlug, customDomain⟩
  rcases projectSlug with _ | projectSlug <;> rcases customDomain with _ | customDomain
  · obtain rfl := Option.some.inj h
    exact ⟨rfl, by simp [Identity.parts, kinds], .inl rfl⟩
  · obtain ⟨normalized, hnormalized, rfl⟩ := Option.map_eq_some_iff.mp h
    rw [normalizeIdentity_eq hnormalized]
    exact ⟨rfl, by simp [Identity.parts, kinds], .inl rfl⟩
  · obtain ⟨normalized, hnormalized, rfl⟩ := Option.map_eq_some_iff.mp h
    rw [normalizeIdentity_eq hnormalized]
    exact ⟨rfl, by simp [Identity.parts, kinds], .inr rfl⟩
  · cases h

theorem ofUnits_inj {value value' : List UInt16} (h : Text.ofUnits value = Text.ofUnits value') : value = value' :=
  List.map_injective_iff.mpr (fun _ _ => UInt16.toNat_inj.mp) h

theorem getCacheKey_inj {key : Text} (h : getCacheKey cases identity = some key) (h' : getCacheKey cases identity' = some key) :
    identity = identity' := by
  obtain ⟨heq, hkind, hone⟩ := getCacheKey_eq h
  obtain ⟨heq', hkind', hone'⟩ := getCacheKey_eq h'
  obtain ⟨hscope, hname, hvalue⟩ :=
    stringifyKey_inj hkind hkind' Text.ofUnits_lt Text.ofUnits_lt (heq.symm.trans heq')
  have hunits := ofUnits_inj hvalue
  rcases identity with ⟨scope, _ | slug, _ | domain⟩ <;> rcases identity' with ⟨scope', _ | slug', _ | domain'⟩ <;>
    simp_all [Identity.parts]

/-! ## What is registered -/

def Purge.Affects (purge : Purge) (key : Text) : Prop := purge.target = none ∨ purge.target = some key

def Purge.Open (purge : Purge) (key : Text) : Prop := purge.Affects key ∧ purge.stage ≠ .finished

/-- The part of a manager that says how old things are. -/
structure Registry where
  generations : Generations
  pendingRequests : Text → Option Nat
  producers : Nat → Option Producer
  purges : Nat → Option Purge
  purgeCount : Nat
  invalidations : Text → Option Nat
  maintenancePromise : Option Nat
  invalidated : Text → Nat

def TokenManager.registry (manager : TokenManager) : Registry :=
  ⟨manager.generations, manager.pendingRequests, manager.producers, manager.purges, manager.purgeCount, manager.invalidations,
    manager.maintenancePromise, manager.invalidated⟩

namespace Registry

variable {registry registry' : Registry} {key : Text} {id : Nat} {strict : Prop}

/-- What came to be at this count is as young as the key's last invalidation, or a purge of this kind is going to remove it. -/
def Covered (registry : Registry) (kind : Purge → Prop) (key : Text) (count : Nat) : Prop :=
  count = registry.invalidated key ∨
    ∃ id purge, registry.purges id = some purge ∧ purge.Affects key ∧ kind purge ∧ purge.counts key ≤ count + 1

/-- A fetch of this key, and in a strict view one that was made behind so many invalidations. -/
def Fresh (registry : Registry) (strict : Prop) (key : Text) (count fetch : Nat) : Prop :=
  ∃ producer, registry.producers fetch = some producer ∧ producer.key = key ∧ (strict → count ≤ producer.madeAfter)

def Passed (registry : Registry) (key : Text) (count : Nat) (but : Nat → Option Text → Prop) : Prop :=
  ∀ id purge, registry.purges id = some purge → purge.Open key → ¬ but id purge.target → count < purge.counts key

structure ProducerSound (registry : Registry) (strict : Prop) (id : Nat) (producer : Producer) : Prop where
  had : registry.generations.Had producer.key producer.generation
  made : producer.generation = registry.generations.current producer.key → producer.madeAfter = registry.invalidated producer.key
  live : producer.generation = registry.generations.current producer.key → producer.stage.isSettled = false →
    registry.pendingRequests producer.key = some id
  alone : strict → producer.stage.isStoring = true → producer.aborted = false →
    producer.madeAfter = registry.invalidated producer.key ∧ registry.pendingRequests producer.key = some id
  awaited : strict → producer.stage.isStoring = true → producer.aborted = true →
    ∃ purgeId purge, registry.purges purgeId = some purge ∧ purge.Affects producer.key ∧ purge.stage = .waiting ∧
      id ∈ purge.producers ∧ purge.counts producer.key ≤ producer.madeAfter + 1
  began : producer.madeAfter ≤ producer.beganAfter
  since : producer.madeAfter ≤ registry.invalidated producer.key

structure PurgeSound (registry : Registry) (id : Nat) (purge : Purge) : Prop where
  issued : id < registry.purgeCount
  counted : ∀ key, purge.Affects key → purge.counts key ≤ registry.invalidated key
  clearing : purge.target = none → purge.stage ≠ .finished → registry.maintenancePromise = some id
  invalidating : ∀ key, purge.target = some key → purge.stage ≠ .finished → registry.invalidations key = some id

/-- What a call knows where it stands. -/
def StageSound (registry : Registry) (strict : Prop) (key : Text) (startedAfter : Nat) : CallStage → Prop
  | .awaitingMaintenance purge => registry.Passed key startedAfter fun id target => id = purge ∨ target = some key
  | .awaitingInvalidation purge => registry.Passed key startedAfter fun id _ => id = purge
  | .reading _ => registry.Passed key startedAfter fun _ _ => False
  | .joined fetch | .read _ (some (_, fetch)) | .settled (.token _ fetch) | .settled (.cachedRejection _ _ fetch) =>
    registry.Fresh strict key startedAfter fetch
  | .starting | .read _ none | .deleting _ | .deleted _ | .settled (.rejected _) => True

structure CallSound (cases : CaseMapping) (strict : Prop) (registry : Registry) (call : Call) : Prop where
  keyed : getCacheKey cases call.identity = some call.key
  started : call.startedAfter ≤ registry.invalidated call.key
  stage : registry.StageSound strict call.key call.startedAfter call.stage

structure Sound (cases : CaseMapping) (strict : Prop) (registry : Registry) : Prop where
  generations : registry.generations.Sound
  producers : ∀ id producer, registry.producers id = some producer → registry.ProducerSound strict id producer
  keyed : ∀ id producer, registry.producers id = some producer → getCacheKey cases producer.identity = some producer.key
  pending : ∀ key id, registry.pendingRequests key = some id →
    ∃ producer, registry.producers id = some producer ∧ producer.key = key
  purges : ∀ id purge, registry.purges id = some purge → registry.PurgeSound id purge

def Deleting (purge : Purge) : Prop := purge.stage = .waiting ∨ purge.stage = .deleting

def Clearing (purge : Purge) : Prop := purge.target = none ∧ purge.stage = .waiting

def CacheSound (registry : Registry) (strict : Prop) (cache : Text → Option Cached) : Prop :=
  ∀ key entry fetch, cache key = some (entry, fetch) →
    ∃ producer, registry.producers fetch = some producer ∧ producer.key = key ∧
      (strict → registry.Covered Deleting key producer.madeAfter)

def RejectionSound (registry : Registry) (entry : NegativeCacheEntry) : Prop :=
  ∃ producer, registry.producers entry.fetch = some producer ∧ producer.key = entry.key ∧
    registry.Covered Clearing entry.key producer.madeAfter

/-! ## What stays known -/

variable {kind : Purge → Prop} {count : Nat}

theorem Passed.young {made : Nat} (hpassed : registry.Passed key count fun _ _ => False)
    (hcovered : registry.Covered kind key made) (hkind : ∀ purge, kind purge → purge.stage ≠ .finished)
    (hcount : count ≤ registry.invalidated key) : count ≤ made := by
  rcases hcovered with heq | ⟨id, purge, hfound, haffects, hpurge, hle⟩
  · exact heq ▸ hcount
  · have hlt := hpassed id purge hfound ⟨haffects, hkind purge hpurge⟩ not_false
    omega

/-- A later state has all producers, and purges that are under way there were so before, or are new. -/
structure Later (registry registry' : Registry) : Prop where
  producers : ∀ id producer, registry.producers id = some producer →
    ∃ producer', registry'.producers id = some producer' ∧ producer'.key = producer.key ∧ producer'.madeAfter = producer.madeAfter
  purges : ∀ id purge' key, registry'.purges id = some purge' → purge'.Open key →
    (∃ purge, registry.purges id = some purge ∧ purge.Open key ∧ purge'.target = purge.target ∧ purge'.counts = purge.counts) ∨
      registry.invalidated key < purge'.counts key
  invalidated : ∀ key, registry.invalidated key ≤ registry'.invalidated key

theorem Later.fresh (h : registry.Later registry') {fetch : Nat} (hfresh : registry.Fresh strict key count fetch) :
    registry'.Fresh strict key count fetch := by
  obtain ⟨producer, hfound, hkey, hle⟩ := hfresh
  obtain ⟨producer', hfound', hkey', hmade⟩ := h.producers fetch producer hfound
  exact ⟨producer', hfound', hkey'.trans hkey, fun hstrict => hmade ▸ hle hstrict⟩

theorem Later.passed (h : registry.Later registry') {but : Nat → Option Text → Prop}
    (hcount : count ≤ registry.invalidated key) (hpassed : registry.Passed key count but) : registry'.Passed key count but := by
  intro id purge' hfound hopen hnot
  rcases h.purges id purge' key hfound hopen with ⟨purge, hold, hopen', htarget, hcounts⟩ | hlt
  · rw [hcounts]
    exact hpassed id purge hold hopen' (htarget ▸ hnot)
  · exact Nat.lt_of_le_of_lt hcount hlt

theorem Later.trans {registry'' : Registry} (h : registry.Later registry') (h' : registry'.Later registry'') :
    registry.Later registry'' := by
  refine ⟨fun id producer hfound => ?_, fun id purge'' key hfound hopen => ?_,
    fun key => Nat.le_trans (h.invalidated key) (h'.invalidated key)⟩
  · obtain ⟨producer', hfound', hkey, hmade⟩ := h.producers id producer hfound
    obtain ⟨producer'', hfound'', hkey', hmade'⟩ := h'.producers id producer' hfound'
    exact ⟨producer'', hfound'', hkey'.trans hkey, hmade'.trans hmade⟩
  · rcases h'.purges id purge'' key hfound hopen with ⟨purge', hfound', hopen', htarget, hcounts⟩ | hlt
    · rw [htarget, hcounts]
      exact h.purges id purge' key hfound' hopen'
    · exact .inr (Nat.lt_of_le_of_lt (h.invalidated key) hlt)

theorem Later.stage (h : registry.Later registry') (hcount : count ≤ registry.invalidated key) {stage : CallStage}
    (hstage : registry.StageSound strict key count stage) : registry'.StageSound strict key count stage := by
  cases stage with
  | awaitingMaintenance | awaitingInvalidation | reading =>
    simp only [StageSound] at hstage ⊢
    exact h.passed hcount hstage
  | joined => exact h.fresh hstage
  | read generation cached =>
    cases cached with
    | none => trivial
    | some cached => exact h.fresh hstage
  | starting | deleting | deleted => trivial
  | settled outcome =>
    cases outcome with
    | token | cachedRejection => exact h.fresh hstage
    | rejected => trivial

variable {cases : CaseMapping}

theorem Later.call (h : registry.Later registry') {call : Call} (hcall : CallSound cases strict registry call) :
    CallSound cases strict registry' call :=
  ⟨hcall.keyed, Nat.le_trans hcall.started (h.invalidated _), h.stage hcall.started hcall.stage⟩

/-! ## Producers move -/

/-- A producer goes on, without a write to the cache. -/
structure Calm (producer producer' : Producer) : Prop where
  identity : producer'.identity = producer.identity
  key : producer'.key = producer.key
  generation : producer'.generation = producer.generation
  aborted : producer'.aborted = producer.aborted
  madeAfter : producer'.madeAfter = producer.madeAfter
  beganAfter : producer.beganAfter ≤ producer'.beganAfter
  settles : producer'.stage.isSettled = false → producer.stage.isSettled = false
  stores : producer'.stage.isStoring = true → producer.stage.isStoring = true

theorem Calm.refl (producer : Producer) : Calm producer producer :=
  ⟨rfl, rfl, rfl, rfl, rfl, Nat.le_refl _, id, id⟩

variable {producer' : Producer}

theorem Calm.sound {producer : Producer} (h : Calm producer producer') (hsound : registry.ProducerSound strict id producer) :
    registry.ProducerSound strict id producer' where
  had := by
    rw [h.key, h.generation]
    exact hsound.had
  made hcurrent := by
    rw [h.key, h.generation] at hcurrent
    rw [h.key, h.madeAfter]
    exact hsound.made hcurrent
  live hcurrent hopen := by
    rw [h.key, h.generation] at hcurrent
    rw [h.key]
    exact hsound.live hcurrent (h.settles hopen)
  alone hstrict hstores haborted := by
    rw [h.key, h.madeAfter]
    exact hsound.alone hstrict (h.stores hstores) (h.aborted ▸ haborted)
  awaited hstrict hstores haborted := by
    rw [h.key, h.madeAfter]
    exact hsound.awaited hstrict (h.stores hstores) (h.aborted ▸ haborted)
  began := by
    rw [h.madeAfter]
    exact Nat.le_trans hsound.began h.beganAfter
  since := by
    rw [h.key, h.madeAfter]
    exact hsound.since

def CalmAll (producers producers' : Nat → Option Producer) : Prop := ∀ id, Option.Rel Calm (producers id) (producers' id)

section CalmAll

variable {producers producers' producers'' : Nat → Option Producer}

theorem CalmAll.back (h : CalmAll producers producers') (hfound : producers' id = some producer') :
    ∃ producer, producers id = some producer ∧ Calm producer producer' := by
  have hrel := h id
  rw [hfound] at hrel
  cases hold : producers id with
  | none =>
    rw [hold] at hrel
    cases hrel
  | some producer =>
    rw [hold] at hrel
    cases hrel with
    | some hcalm => exact ⟨producer, rfl, hcalm⟩

theorem CalmAll.forth (h : CalmAll producers producers') {producer : Producer} (hfound : producers id = some producer) :
    ∃ producer', producers' id = some producer' ∧ Calm producer producer' := by
  have hrel := h id
  rw [hfound] at hrel
  cases hnew : producers' id with
  | none =>
    rw [hnew] at hrel
    cases hrel
  | some producer' =>
    rw [hnew] at hrel
    cases hrel with
    | some hcalm => exact ⟨producer', rfl, hcalm⟩

theorem CalmAll.refl (producers : Nat → Option Producer) : CalmAll producers producers := by
  intro id
  cases producers id with
  | none => exact .none
  | some producer => exact .some (.refl producer)

theorem Calm.trans {a b c : Producer} (h : Calm a b) (h' : Calm b c) : Calm a c :=
  ⟨h'.identity.trans h.identity, h'.key.trans h.key, h'.generation.trans h.generation, h'.aborted.trans h.aborted,
    h'.madeAfter.trans h.madeAfter, Nat.le_trans h.beganAfter h'.beganAfter, fun hopen => h.settles (h'.settles hopen),
    fun hstores => h.stores (h'.stores hstores)⟩

theorem CalmAll.trans (h : CalmAll producers producers') (h' : CalmAll producers' producers'') : CalmAll producers producers'' := by
  intro id
  cases hfound : producers id with
  | none =>
    have hrel := h id
    have hrel' := h' id
    rw [hfound] at hrel
    cases hmiddle : producers' id with
    | none =>
      rw [hmiddle] at hrel'
      cases hlast : producers'' id with
      | none => exact .none
      | some => rw [hlast] at hrel'; cases hrel'
    | some => rw [hmiddle] at hrel; cases hrel
  | some producer =>
    obtain ⟨middle, hmiddle, hcalm⟩ := h.forth hfound
    obtain ⟨last, hlast, hcalm'⟩ := h'.forth hmiddle
    rw [hlast]
    exact .some (hcalm.trans hcalm')

theorem CalmAll.update {producer : Producer} (hfound : producers id = some producer) (h : Calm producer producer') :
    CalmAll producers (update producers id (some producer')) := by
  intro other
  by_cases heq : other = id
  · subst heq
    rw [hfound, update_self]
    exact .some h
  · rw [update_of_ne heq]
    exact CalmAll.refl producers other

theorem CalmAll.update_both {producer : Producer} (h : Calm producer producer') (producers : Nat → Option Producer) :
    CalmAll (Function.update producers id (some producer)) (Function.update producers id (some producer')) := by
  have hself := CalmAll.update (update_self id (some producer) producers) h
  rwa [update_idem] at hself

end CalmAll

theorem Sound.calm (h : registry.Sound cases strict) {producers : Nat → Option Producer}
    (hcalm : CalmAll registry.producers producers) : { registry with producers := producers }.Sound cases strict := by
  refine ⟨h.generations, fun id producer' hfound => ?_, fun id producer' hfound => ?_, fun key id hpending => ?_,
    fun id purge hfound => ?_⟩
  · obtain ⟨producer, hold, hmoved⟩ := hcalm.back hfound
    obtain ⟨had, made, live, alone, awaited, began, since⟩ := hmoved.sound (h.producers id producer hold)
    exact ⟨had, made, live, alone, awaited, began, since⟩
  · obtain ⟨producer, hold, hmoved⟩ := hcalm.back hfound
    rw [hmoved.identity, hmoved.key]
    exact h.keyed id producer hold
  · obtain ⟨producer, hold, hkey⟩ := h.pending key id hpending
    obtain ⟨producer', hnew, hmoved⟩ := hcalm.forth hold
    exact ⟨producer', hnew, hmoved.key.trans hkey⟩
  · obtain ⟨issued, counted, clearing, invalidating⟩ := h.purges id purge hfound
    exact ⟨issued, counted, clearing, invalidating⟩

theorem Later.calm {producers : Nat → Option Producer} (hcalm : CalmAll registry.producers producers) :
    registry.Later { registry with producers := producers } := by
  refine ⟨fun id producer hfound => ?_, fun id purge' key hfound hopen => .inl ⟨purge', hfound, hopen, rfl, rfl⟩,
    fun key => Nat.le_refl _⟩
  obtain ⟨producer', hnew, hmoved⟩ := hcalm.forth hfound
  exact ⟨producer', hnew, hmoved.key, hmoved.madeAfter⟩

theorem Later.setProducer {producer : Producer} (hfound : registry.producers id = some producer)
    (hkey : producer'.key = producer.key) (hmade : producer'.madeAfter = producer.madeAfter) :
    registry.Later { registry with producers := update registry.producers id (some producer') } := by
  refine ⟨fun other found hother => ?_, fun other purge' key hpurge hopen => .inl ⟨purge', hpurge, hopen, rfl, rfl⟩,
    fun key => Nat.le_refl _⟩
  by_cases heq : other = id
  · subst heq
    obtain rfl := Option.some.inj (hfound.symm.trans hother)
    exact ⟨producer', update_self .., hkey, hmade⟩
  · exact ⟨found, (update_of_ne heq _ _).trans hother, rfl, rfl⟩

theorem Sound.setProducer (h : registry.Sound cases strict) {producer : Producer}
    (hfound : registry.producers id = some producer) (hidentity : producer'.identity = producer.identity)
    (hkey : producer'.key = producer.key) (hsound : registry.ProducerSound strict id producer') :
    { registry with producers := update registry.producers id (some producer') }.Sound cases strict := by
  refine ⟨h.generations, fun other found hother => ?_, fun other found hother => ?_, fun key other hpending => ?_,
    fun other purge hother => ?_⟩
  · rcases update_some_iff.mp hother with ⟨rfl, rfl⟩ | ⟨-, hold⟩
    · obtain ⟨had, made, live, alone, awaited, began, since⟩ := hsound
      exact ⟨had, made, live, alone, awaited, began, since⟩
    · obtain ⟨had, made, live, alone, awaited, began, since⟩ := h.producers other found hold
      exact ⟨had, made, live, alone, awaited, began, since⟩
  · rcases update_some_iff.mp hother with ⟨rfl, rfl⟩ | ⟨-, hold⟩
    · rw [hidentity, hkey]
      exact h.keyed other producer hfound
    · exact h.keyed other found hold
  · obtain ⟨old, hold, holdkey⟩ := h.pending key other hpending
    by_cases heq : other = id
    · subst heq
      obtain rfl := Option.some.inj (hfound.symm.trans hold)
      exact ⟨producer', update_self .., hkey.trans holdkey⟩
    · exact ⟨old, (update_of_ne heq _ _).trans hold, holdkey⟩
  · obtain ⟨issued, counted, clearing, invalidating⟩ := h.purges other purge hother
    exact ⟨issued, counted, clearing, invalidating⟩

theorem ProducerSound.store {producer : Producer} (h : registry.ProducerSound strict id producer)
    (hcurrent : producer.generation = registry.generations.current producer.key) (hopen : producer.stage.isSettled = false)
    (haborted : producer.aborted = false) (entry : TokenCacheEntry Int) :
    registry.ProducerSound strict id { producer with stage := .storing entry } where
  had := h.had
  made := h.made
  live hgeneration _ := h.live hgeneration hopen
  alone _ _ _ := ⟨h.made hcurrent, h.live hcurrent hopen⟩
  awaited _ _ htrue := absurd (haborted.symm.trans htrue) Bool.false_ne_true
  began := h.began
  since := h.since

theorem ProducerSound.covered {producer : Producer} (h : registry.ProducerSound strict id producer)
    (hstrict : strict) (hstores : producer.stage.isStoring = true) : registry.Covered Deleting producer.key producer.madeAfter := by
  cases haborted : producer.aborted with
  | false => exact .inl (h.alone hstrict hstores haborted).1
  | true =>
    obtain ⟨purgeId, purge, hfound, haffects, hwaiting, -, hle⟩ := h.awaited hstrict hstores haborted
    exact .inr ⟨purgeId, purge, hfound, haffects, .inl hwaiting, hle⟩

/-- A new producer, of the current generations, takes the place of none whose write to the cache is in flight unaborted. -/
theorem Sound.register (h : registry.Sound cases strict) {identity : Identity}
    (hkeyed : getCacheKey cases identity = some key) (hnew : registry.producers id = none)
    (hpending : ∀ other producer, registry.pendingRequests key = some other → registry.producers other = some producer →
      producer.generation ≠ registry.generations.current key ∧ (strict → producer.stage.isStoring = true → producer.aborted = true)) :
    { registry with
      producers := update registry.producers id
        (some ⟨identity, key, registry.generations.current key, false, .acquiring, registry.invalidated key, registry.invalidated key⟩)
      pendingRequests := update registry.pendingRequests key (some id) }.Sound cases strict ∧
    registry.Later { registry with
      producers := update registry.producers id
        (some ⟨identity, key, registry.generations.current key, false, .acquiring, registry.invalidated key, registry.invalidated key⟩)
      pendingRequests := update registry.pendingRequests key (some id) } := by
  have hne {other : Nat} {producer : Producer} (hfound : registry.producers other = some producer) : other ≠ id := by
    rintro rfl
    rw [hnew] at hfound
    cases hfound
  refine ⟨⟨h.generations, fun other found hother => ?_, fun other found hother => ?_, fun other found hother => ?_,
    fun other purge hother => ?_⟩, ⟨fun other found hother => ?_, fun other purge' _ hpurge hopen => .inl ⟨purge', hpurge, hopen, rfl, rfl⟩,
    fun _ => Nat.le_refl _⟩⟩
  · rcases update_some_iff.mp hother with ⟨rfl, rfl⟩ | ⟨-, hfound⟩
    · exact ⟨Generations.had_current _ _, fun _ => rfl, fun _ _ => update_self .., fun _ => nofun, fun _ => nofun, Nat.le_refl _,
        Nat.le_refl _⟩
    · obtain ⟨had, made, live, alone, awaited, began, since⟩ := h.producers other found hfound
      refine ⟨had, made, fun hcurrent hopen => ?_, fun hstrict hstores haborted => ⟨(alone hstrict hstores haborted).1, ?_⟩, awaited,
        began, since⟩
      · by_cases hkey : found.key = key
        · have hregistered := live hcurrent hopen
          rw [hkey] at hregistered hcurrent
          exact absurd hcurrent (hpending other found hregistered hfound).1
        · exact (update_of_ne hkey _ _).trans (live hcurrent hopen)
      · have hregistered := (alone hstrict hstores haborted).2
        by_cases hkey : found.key = key
        · rw [hkey] at hregistered
          have htrue := (hpending other found hregistered hfound).2 hstrict hstores
          exact absurd (haborted.symm.trans htrue) Bool.false_ne_true
        · exact (update_of_ne hkey _ _).trans hregistered
  · rcases update_some_iff.mp hother with ⟨rfl, rfl⟩ | ⟨-, hold⟩
    · exact hkeyed
    · exact h.keyed other found hold
  · rcases update_some_iff.mp hother with ⟨rfl, rfl⟩ | ⟨-, hregistered⟩
    · exact ⟨_, update_self .., rfl⟩
    · obtain ⟨old, hold, holdkey⟩ := h.pending other found hregistered
      exact ⟨old, (update_of_ne (hne hold) _ _).trans hold, holdkey⟩
  · obtain ⟨issued, counted, clearing, invalidating⟩ := h.purges other purge hother
    exact ⟨issued, counted, clearing, invalidating⟩
  · exact ⟨found, (update_of_ne (hne hother) _ _).trans hother, rfl, rfl⟩

theorem Sound.unregister (h : registry.Sound cases strict) {producer : Producer}
    (hfound : registry.producers id = some producer) (hsettled : producer.stage.isSettled = true)
    (hpending : registry.pendingRequests key = some id) :
    { registry with pendingRequests := update registry.pendingRequests key none }.Sound cases strict := by
  have hkept {other : Nat} {found : Producer} (hother : registry.producers other = some found)
      (hopen : found.stage.isSettled = false) (hregistered : registry.pendingRequests found.key = some other) :
      update registry.pendingRequests key none found.key = some other := by
    by_cases hkey : found.key = key
    · rw [hkey, hpending] at hregistered
      obtain rfl := Option.some.inj hregistered
      obtain rfl := Option.some.inj (hfound.symm.trans hother)
      exact absurd (hopen.symm.trans hsettled) Bool.false_ne_true
    · exact (update_of_ne hkey _ _).trans hregistered
  refine ⟨h.generations, fun other found hother => ?_, h.keyed, fun other found hother => ?_, fun other purge hother => ?_⟩
  · obtain ⟨had, made, live, alone, awaited, began, since⟩ := h.producers other found hother
    refine ⟨had, made, fun hcurrent hopen => hkept hother hopen (live hcurrent hopen), fun hstrict hstores haborted => ?_, awaited,
      began, since⟩
    obtain ⟨hmade, hregistered⟩ := alone hstrict hstores haborted
    refine ⟨hmade, hkept hother ?_ hregistered⟩
    cases hstage : found.stage with
    | storing => rfl
    | _ => rw [hstage] at hstores; cases hstores
  · exact h.pending other found (update_none_iff.mp hother).2
  · obtain ⟨issued, counted, clearing, invalidating⟩ := h.purges other purge hother
    exact ⟨issued, counted, clearing, invalidating⟩

/-! ## Purges -/

def AbortedAll (aborts : Nat → Bool) (producers producers' : Nat → Option Producer) : Prop :=
  ∀ id, Option.Rel (fun producer => Calm { producer with aborted := producer.aborted || aborts id }) (producers id) (producers' id)

section AbortedAll

variable {producers producers' : Nat → Option Producer} {aborts : Nat → Bool}

theorem AbortedAll.back (h : AbortedAll aborts producers producers') (hfound : producers' id = some producer') :
    ∃ producer, producers id = some producer ∧ Calm { producer with aborted := producer.aborted || aborts id } producer' := by
  have hrel := h id
  rw [hfound] at hrel
  cases hold : producers id with
  | none => rw [hold] at hrel; cases hrel
  | some producer =>
    rw [hold] at hrel
    cases hrel with
    | some hcalm => exact ⟨producer, rfl, hcalm⟩

theorem AbortedAll.forth (h : AbortedAll aborts producers producers') {producer : Producer} (hfound : producers id = some producer) :
    ∃ producer', producers' id = some producer' ∧ Calm { producer with aborted := producer.aborted || aborts id } producer' := by
  have hrel := h id
  rw [hfound] at hrel
  cases hnew : producers' id with
  | none => rw [hnew] at hrel; cases hrel
  | some producer' =>
    rw [hnew] at hrel
    cases hrel with
    | some hcalm => exact ⟨producer', rfl, hcalm⟩

theorem AbortedAll.none_at (hnone : producers id = none) : AbortedAll (fun other => decide (other = id)) producers producers := by
  intro other
  cases hother : producers other with
  | none => exact .none
  | some producer =>
    have hne : other ≠ id := by
      rintro rfl
      rw [hnone] at hother
      cases hother
    refine .some ?_
    beta_reduce
    rw [decide_eq_false hne, Bool.or_false]
    exact .refl producer

theorem AbortedAll.single {producer : Producer} (hfound : producers id = some producer)
    (h : Calm { producer with aborted := true } producer') :
    AbortedAll (fun other => decide (other = id)) producers (Function.update producers id (some producer')) := by
  intro other
  by_cases heq : other = id
  · subst heq
    rw [hfound, update_self]
    refine .some ?_
    beta_reduce
    rw [decide_eq_true rfl, Bool.or_true]
    exact h
  · rw [update_of_ne heq]
    cases producers other with
    | none => exact .none
    | some found =>
      refine .some ?_
      beta_reduce
      rw [decide_eq_false heq, Bool.or_false]
      exact .refl found

theorem AbortedAll.nobody (producers : Nat → Option Producer) : AbortedAll (fun _ => false) producers producers := by
  intro id
  cases producers id with
  | none => exact .none
  | some producer =>
    refine .some ?_
    rw [Bool.or_false]
    exact .refl producer

theorem AbortedAll.trans {producers'' : Nat → Option Producer} {aborts' : Nat → Bool} (h : AbortedAll aborts producers producers')
    (h' : AbortedAll aborts' producers' producers'') :
    AbortedAll (fun id => aborts id || aborts' id) producers producers'' := by
  intro id
  cases hfound : producers id with
  | none =>
    cases hlast : producers'' id with
    | none => exact .none
    | some producer'' =>
      obtain ⟨producer', hmiddle, -⟩ := h'.back hlast
      obtain ⟨producer, hold, -⟩ := h.back hmiddle
      rw [hfound] at hold
      cases hold
  | some producer =>
    obtain ⟨producer', hmiddle, hcalm⟩ := h.forth hfound
    obtain ⟨producer'', hlast, hcalm'⟩ := h'.forth hmiddle
    rw [hlast]
    refine .some ⟨hcalm'.identity.trans hcalm.identity, hcalm'.key.trans hcalm.key, hcalm'.generation.trans hcalm.generation, ?_,
      hcalm'.madeAfter.trans hcalm.madeAfter, Nat.le_trans hcalm.beganAfter hcalm'.beganAfter,
      fun hopen => hcalm.settles (hcalm'.settles hopen), fun hstores => hcalm.stores (hcalm'.stores hstores)⟩
    have haborted := hcalm'.aborted
    dsimp only at haborted ⊢
    rw [haborted, hcalm.aborted, Bool.or_assoc]

end AbortedAll

structure Purges (registry registry' : Registry) (purge : Purge) : Prop where
  moved : registry.generations.Moved registry'.generations
  renewed : ∀ key, purge.Affects key → registry.generations.Renewed registry'.generations key
  counts : ∀ key, purge.Affects key → purge.counts key = registry.invalidated key + 1
  spared : ∀ key, ¬ purge.Affects key → purge.counts key = registry.invalidated key
  invalidated : registry'.invalidated = purge.counts
  pending : registry'.pendingRequests = registry.pendingRequests
  waits : ∀ id producer, registry.producers id = some producer →
    (id ∈ purge.producers ↔ purge.Affects producer.key ∧ registry.pendingRequests producer.key = some id)
  producers : AbortedAll (· ∈ purge.producers) registry.producers registry'.producers
  stage : purge.stage = .waiting ∨ purge.stage = .deleting ∧ purge.producers = []
  purges : registry'.purges = update registry.purges registry.purgeCount (some purge)
  purgeCount : registry'.purgeCount = registry.purgeCount + 1
  clearing : purge.target = none → registry.maintenancePromise = none ∧ registry'.maintenancePromise = some registry.purgeCount ∧
    registry'.invalidations = registry.invalidations
  invalidating : ∀ key, purge.target = some key → registry.invalidations key = none ∧
    registry'.invalidations = update registry.invalidations key (some registry.purgeCount) ∧
      registry'.maintenancePromise = registry.maintenancePromise

section Purges

variable {cases : CaseMapping} {purge : Purge}

theorem Sound.purge_ne (h : registry.Sound cases strict) {other : Nat} {found : Purge} (hfound : registry.purges other = some found) :
    other ≠ registry.purgeCount := Nat.ne_of_lt (h.purges other found hfound).issued

theorem Purges.old (hpurges : Purges registry registry' purge) (h : registry.Sound cases strict) {other : Nat} {found : Purge}
    (hfound : registry.purges other = some found) : registry'.purges other = some found := by
  rw [hpurges.purges, update_of_ne (h.purge_ne hfound)]
  exact hfound

theorem Purges.new (hpurges : Purges registry registry' purge) : registry'.purges registry.purgeCount = some purge := by
  rw [hpurges.purges, update_self]

theorem Purges.le (hpurges : Purges registry registry' purge) (key : Text) :
    registry.invalidated key ≤ registry'.invalidated key := by
  rw [hpurges.invalidated]
  by_cases haffects : purge.Affects key
  · rw [hpurges.counts key haffects]
    exact Nat.le_succ _
  · exact Nat.le_of_eq (hpurges.spared key haffects).symm

theorem Purges.later (hpurges : Purges registry registry' purge) : registry.Later registry' := by
  refine ⟨fun id producer hfound => ?_, fun other purge' key hfound hopen => ?_, hpurges.le⟩
  · obtain ⟨producer', hnew, hmoved⟩ := hpurges.producers.forth hfound
    exact ⟨producer', hnew, hmoved.key, hmoved.madeAfter⟩
  · rw [hpurges.purges] at hfound
    rcases update_some_iff.mp hfound with ⟨rfl, rfl⟩ | ⟨-, hold⟩
    · right
      rw [hpurges.counts key hopen.1]
      exact Nat.lt_succ_self _
    · exact .inl ⟨purge', hold, hopen, rfl, rfl⟩

theorem Purges.covered (hpurges : Purges registry registry' purge) (h : registry.Sound cases strict)
    (hkind : purge.Affects key → kind purge) (hcovered : registry.Covered kind key count) : registry'.Covered kind key count := by
  rcases hcovered with rfl | ⟨other, found, hfound, haffects, hfoundKind, hle⟩
  · by_cases haffects : purge.Affects key
    · exact .inr ⟨registry.purgeCount, purge, hpurges.new, haffects, hkind haffects, Nat.le_of_eq (hpurges.counts key haffects)⟩
    · left
      rw [hpurges.invalidated, hpurges.spared key haffects]
  · exact .inr ⟨other, found, hpurges.old h hfound, haffects, hfoundKind, hle⟩

theorem Purges.producer (hpurges : Purges registry registry' purge) (h : registry.Sound cases strict) {producer : Producer}
    (hfound : registry.producers id = some producer) :
    registry'.ProducerSound strict id { producer with aborted := producer.aborted || decide (id ∈ purge.producers) } := by
  obtain ⟨had, made, live, alone, awaited, began, since⟩ := h.producers id producer hfound
  have hspared (hcurrent : producer.generation = registry'.generations.current producer.key) : ¬ purge.Affects producer.key :=
    fun haffects => hpurges.renewed _ haffects _ had hcurrent
  refine ⟨hpurges.moved.had _ _ had, fun hcurrent => ?_, fun hcurrent hopen => ?_, fun hstrict hstores haborted => ?_,
    fun hstrict hstores haborted => ?_, began, Nat.le_trans since (hpurges.le _)⟩
  · rw [hpurges.invalidated]
    exact (made (hpurges.moved.same _ _ had hcurrent)).trans (hpurges.spared _ (hspared hcurrent)).symm
  · rw [hpurges.pending]
    exact live (hpurges.moved.same _ _ had hcurrent) hopen
  · obtain ⟨haborted, hnot⟩ := Bool.or_eq_false_iff.mp haborted
    obtain ⟨hmade, hregistered⟩ := alone hstrict hstores haborted
    have hunaffected : ¬ purge.Affects producer.key := fun haffects =>
      of_decide_eq_false hnot ((hpurges.waits id producer hfound).mpr ⟨haffects, hregistered⟩)
    rw [hpurges.invalidated, hpurges.pending]
    exact ⟨hmade.trans (hpurges.spared _ hunaffected).symm, hregistered⟩
  · cases hold : producer.aborted with
    | true =>
      obtain ⟨other, found, hother, haffects, hwaiting, hmem, hle⟩ := awaited hstrict hstores hold
      exact ⟨other, found, hpurges.old h hother, haffects, hwaiting, hmem, hle⟩
    | false =>
      have hmem : id ∈ purge.producers := by
        have htrue : (producer.aborted || decide (id ∈ purge.producers)) = true := haborted
        rw [hold, Bool.false_or] at htrue
        exact of_decide_eq_true htrue
      obtain ⟨haffects, -⟩ := (hpurges.waits id producer hfound).mp hmem
      refine ⟨registry.purgeCount, purge, hpurges.new, haffects, ?_, hmem, ?_⟩
      · rcases hpurges.stage with hwaiting | ⟨-, hnil⟩
        · exact hwaiting
        · rw [hnil] at hmem
          cases hmem
      · show purge.counts producer.key ≤ producer.madeAfter + 1
        rw [(alone hstrict hstores hold).1, hpurges.counts _ haffects]

theorem Purges.sound (hpurges : Purges registry registry' purge) (h : registry.Sound cases strict) : registry'.Sound cases strict := by
  refine ⟨hpurges.moved.sound, fun id producer' hfound => ?_, fun id producer' hfound => ?_, fun key id hpending => ?_,
    fun other found hfound => ?_⟩
  · obtain ⟨producer, hold, hmoved⟩ := hpurges.producers.back hfound
    exact hmoved.sound (hpurges.producer h hold)
  · obtain ⟨producer, hold, hmoved⟩ := hpurges.producers.back hfound
    rw [hmoved.identity, hmoved.key]
    exact h.keyed id producer hold
  · rw [hpurges.pending] at hpending
    obtain ⟨producer, hold, hkey⟩ := h.pending key id hpending
    obtain ⟨producer', hnew, hmoved⟩ := hpurges.producers.forth hold
    exact ⟨producer', hnew, hmoved.key.trans hkey⟩
  · rw [hpurges.purges] at hfound
    rcases update_some_iff.mp hfound with ⟨rfl, rfl⟩ | ⟨hne, hold⟩
    · refine ⟨?_, fun key _ => ?_, fun htarget _ => (hpurges.clearing htarget).2.1, fun key htarget _ => ?_⟩
      · rw [hpurges.purgeCount]
        exact Nat.lt_succ_self _
      · rw [hpurges.invalidated]
      · rw [(hpurges.invalidating key htarget).2.1, update_self]
    · obtain ⟨issued, counted, clearing, invalidating⟩ := h.purges other found hold
      refine ⟨?_, fun key haffects => Nat.le_trans (counted key haffects) (hpurges.le key), fun htarget hopen => ?_,
        fun key htarget hopen => ?_⟩
      · rw [hpurges.purgeCount]
        exact Nat.lt_succ_of_lt issued
      · have hpromise := clearing htarget hopen
        cases hkind : purge.target with
        | none => exact absurd (hpromise.symm.trans (hpurges.clearing hkind).1) nofun
        | some key => exact (hpurges.invalidating key hkind).2.2.trans hpromise
      · have hpromise := invalidating key htarget hopen
        cases hkind : purge.target with
        | none => rw [(hpurges.clearing hkind).2.2, hpromise]
        | some key' =>
          obtain ⟨hnone, hupdated, -⟩ := hpurges.invalidating key' hkind
          have hkey : key ≠ key' := by
            rintro rfl
            exact absurd (hpromise.symm.trans hnone) nofun
          rw [hupdated, update_of_ne hkey, hpromise]

end Purges

/-- What a purge under way does to a registry when it comes to a later stage. -/
structure Moves (registry registry' : Registry) (id : Nat) (purge : Purge) (stage : PurgeStage) : Prop where
  found : registry.purges id = some purge
  waited : purge.stage = .waiting → ∀ other ∈ purge.producers, ∀ producer, registry.producers other = some producer →
    producer.stage.isStoring = false
  kept : registry'.generations = registry.generations ∧ registry'.pendingRequests = registry.pendingRequests ∧
    registry'.producers = registry.producers ∧ registry'.purgeCount = registry.purgeCount ∧
      registry'.invalidated = registry.invalidated
  purges : registry'.purges = update registry.purges id (some { purge with stage := stage })
  self : stage ≠ .finished → purge.stage ≠ .finished ∧ registry'.invalidations = registry.invalidations ∧
    registry'.maintenancePromise = registry.maintenancePromise
  others : ∀ other, other ≠ id → (∀ key, registry.invalidations key = some other → registry'.invalidations key = some other) ∧
    (registry.maintenancePromise = some other → registry'.maintenancePromise = some other)

section Moves

variable {cases : CaseMapping} {purge : Purge} {stage : PurgeStage}

theorem Moves.later (hmoves : Moves registry registry' id purge stage) : registry.Later registry' := by
  obtain ⟨-, -, hproducers, -, hinvalidated⟩ := hmoves.kept
  refine ⟨fun other producer hfound => ⟨producer, hproducers ▸ hfound, rfl, rfl⟩, fun other purge' key hfound hopen => .inl ?_,
    fun key => Nat.le_of_eq (by rw [hinvalidated])⟩
  rw [hmoves.purges] at hfound
  rcases update_some_iff.mp hfound with ⟨rfl, rfl⟩ | ⟨-, hold⟩
  · exact ⟨purge, hmoves.found, ⟨hopen.1, (hmoves.self hopen.2).1⟩, rfl, rfl⟩
  · exact ⟨purge', hold, hopen, rfl, rfl⟩

theorem Moves.covered (hmoves : Moves registry registry' id purge stage)
    (hkind : purge.Affects key → kind purge → kind { purge with stage := stage }) (hcovered : registry.Covered kind key count) :
    registry'.Covered kind key count := by
  rcases hcovered with heq | ⟨other, found, hfound, haffects, hfoundKind, hle⟩
  · exact .inl (heq.trans (congrFun hmoves.kept.2.2.2.2 key).symm)
  · right
    by_cases hsame : other = id
    · subst hsame
      obtain rfl := Option.some.inj (hmoves.found.symm.trans hfound)
      exact ⟨other, { purge with stage := stage }, by rw [hmoves.purges, update_self], haffects, hkind haffects hfoundKind, hle⟩
    · exact ⟨other, found, by rw [hmoves.purges, update_of_ne hsame, hfound], haffects, hfoundKind, hle⟩

theorem Moves.sound (hmoves : Moves registry registry' id purge stage) (h : registry.Sound cases strict) : registry'.Sound cases strict := by
  obtain ⟨hgenerations, hpending, hproducers, hcount, hinvalidated⟩ := hmoves.kept
  refine ⟨hgenerations ▸ h.generations, fun other producer hfound => ?_,
    fun other producer hfound => h.keyed other producer (hproducers ▸ hfound), fun key other hfound => ?_,
    fun other found hfound => ?_⟩
  · rw [hproducers] at hfound
    obtain ⟨had, made, live, alone, awaited, began, since⟩ := h.producers other producer hfound
    rw [← hgenerations] at had made live
    rw [← hinvalidated] at made alone since
    rw [← hpending] at live alone
    refine ⟨had, made, live, alone, fun hstrict hstores haborted => ?_, began, since⟩
    obtain ⟨purgeId, witness, hwitness, haffects, hwaiting, hmem, hle⟩ := awaited hstrict hstores haborted
    have hne : purgeId ≠ id := by
      rintro rfl
      obtain rfl := Option.some.inj (hmoves.found.symm.trans hwitness)
      have hnot := hmoves.waited hwaiting other hmem producer hfound
      exact absurd (hnot.symm.trans hstores) Bool.false_ne_true
    exact ⟨purgeId, witness, by rw [hmoves.purges, update_of_ne hne, hwitness], haffects, hwaiting, hmem, hle⟩
  · rw [hpending] at hfound
    rw [hproducers]
    exact h.pending key other hfound
  · rw [hmoves.purges] at hfound
    rcases update_some_iff.mp hfound with ⟨rfl, rfl⟩ | ⟨hne, hold⟩
    · obtain ⟨issued, counted, clearing, invalidating⟩ := h.purges other purge hmoves.found
      refine ⟨hcount ▸ issued, hinvalidated ▸ counted, fun htarget hopen => ?_, fun key htarget hopen => ?_⟩
      · obtain ⟨hopen', -, hpromise⟩ := hmoves.self hopen
        exact hpromise.trans (clearing htarget hopen')
      · obtain ⟨hopen', hpromise, -⟩ := hmoves.self hopen
        exact (congrFun hpromise key).trans (invalidating key htarget hopen')
    · obtain ⟨issued, counted, clearing, invalidating⟩ := h.purges other found hold
      obtain ⟨hinvalidations, hpromise⟩ := hmoves.others other hne
      exact ⟨hcount ▸ issued, hinvalidated ▸ counted, fun htarget hopen => hpromise (clearing htarget hopen),
        fun key htarget hopen => hinvalidations key (invalidating key htarget hopen)⟩

end Moves

theorem CacheSound.mono {cache : Text → Option Cached} (h : registry.CacheSound strict cache) (hlater : registry.Later registry')
    (hcovered : ∀ key count, registry.Covered Deleting key count → registry'.Covered Deleting key count) :
    registry'.CacheSound strict cache := by
  intro key entry fetch hfound
  obtain ⟨producer, hproducer, hkey, hold⟩ := h key entry fetch hfound
  obtain ⟨producer', hproducer', hkey', hmade⟩ := hlater.producers fetch producer hproducer
  exact ⟨producer', hproducer', hkey'.trans hkey, fun hstrict => hmade ▸ hcovered key _ (hold hstrict)⟩

theorem RejectionSound.mono {entry : NegativeCacheEntry} (h : registry.RejectionSound entry) (hlater : registry.Later registry')
    (hcovered : ∀ count, registry.Covered Clearing entry.key count → registry'.Covered Clearing entry.key count) :
    registry'.RejectionSound entry := by
  obtain ⟨producer, hproducer, hkey, hold⟩ := h
  obtain ⟨producer', hproducer', hkey', hmade⟩ := hlater.producers entry.fetch producer hproducer
  exact ⟨producer', hproducer', hkey'.trans hkey, hmade ▸ hcovered _ hold⟩

end Registry

/-! ## A manager -/

def Outcome.fetch? : Outcome → Option Nat
  | .token _ fetch | .cachedRejection _ _ fetch => some fetch
  | .rejected _ => none

namespace TokenManager

variable {manager manager' : TokenManager} {key : Text} {id : Nat} {cases : CaseMapping} {strict : Prop}

/-- Every token that can be had is young enough for whom it is given to. -/
structure Sound (cases : CaseMapping) (strict : Prop) (manager : TokenManager) : Prop where
  registry : manager.registry.Sound cases strict
  cached : manager.registry.CacheSound strict manager.cache
  rejected : ∀ entry ∈ manager.negativeCache, manager.registry.RejectionSound entry
  calls : ∀ id call, manager.calls id = some call → Registry.CallSound cases strict manager.registry call

namespace Sound

theorem initial (options : TokenManagerOptions) : Sound cases strict (TokenManager.initial options) where
  registry := ⟨⟨Nat.one_pos, nofun⟩, fun _ _ => nofun, fun _ _ => nofun, fun _ _ => nofun, fun _ _ => nofun⟩
  cached _ _ _ := nofun
  rejected _ := nofun
  calls _ _ := nofun

theorem goOn (h : manager.Sound cases strict) (hregistry : manager'.registry.Sound cases strict) (hlater : manager.registry.Later manager'.registry)
    (hcovered : ∀ kind key count, manager.registry.Covered kind key count → manager'.registry.Covered kind key count)
    (hcache : manager'.cache = manager.cache) (hnegative : manager'.negativeCache = manager.negativeCache)
    (hcalls : manager'.calls = manager.calls) : manager'.Sound cases strict := by
  refine ⟨hregistry, ?_, fun entry hmem => ?_, fun id call hfound => ?_⟩
  · rw [hcache]
    exact h.cached.mono hlater (hcovered _)
  · rw [hnegative] at hmem
    exact (h.rejected entry hmem).mono hlater (hcovered _ _)
  · rw [hcalls] at hfound
    exact hlater.call (h.calls id call hfound)

theorem updateCall (h : manager.Sound cases strict) {call : Call} (hcall : Registry.CallSound cases strict manager.registry call)
    (count active : Nat) : Sound cases strict { manager with
      calls := update manager.calls id (some call), callCount := count, activeResolutions := active } := by
  refine ⟨h.registry, h.cached, h.rejected, fun other found hfound => ?_⟩
  rcases update_some_iff.mp hfound with ⟨rfl, rfl⟩ | ⟨-, hold⟩
  · exact hcall
  · exact h.calls other found hold

theorem shrink (h : manager.Sound cases strict) {cache : Text → Option Cached} {negativeCache : List NegativeCacheEntry}
    (hcache : ∀ key cached, cache key = some cached → manager.cache key = some cached)
    (hnegative : ∀ entry ∈ negativeCache, entry ∈ manager.negativeCache) :
    Sound cases strict { manager with cache := cache, negativeCache := negativeCache } :=
  ⟨h.registry, fun key entry fetch hfound => h.cached key entry fetch (hcache key _ hfound),
    fun entry hmem => h.rejected entry (hnegative entry hmem), h.calls⟩

end Sound

/-! ## Permits -/

structure Admission (options : TokenManagerOptions) (owed : Nat) (manager : TokenManager) : Prop where
  conserved : ∃ events log,
    PermitSemaphore.Conserved options.maxConcurrentFetches options.maxQueuedFetches events manager.fetchAdmission log
  waiting : ∀ id ∈ manager.fetchAdmission.waitQueue, ∃ producer, manager.producers id = some producer ∧ producer.stage = .acquiring
  fresh : ∀ id, manager.fetchAdmission.calls ≤ id → manager.producers id = none
  permits : manager.fetchAdmission.permits + count (·.stage.holds) manager.producers manager.fetchAdmission.calls + owed =
    options.maxConcurrentFetches

section Admission

variable {options : TokenManagerOptions} {owed : Nat} {producer producer' : Producer}

theorem Admission.initial (options : TokenManagerOptions) : Admission options 0 (TokenManager.initial options) where
  conserved := ⟨[], [], PermitSemaphore.conserved_create⟩
  waiting _ := nofun
  fresh _ _ := rfl
  permits := rfl

theorem Admission.lt (h : Admission options owed manager) (hfound : manager.producers id = some producer) :
    id < manager.fetchAdmission.calls := by
  by_contra hle
  have hnone := h.fresh id (Nat.le_of_not_lt hle)
  rw [hfound] at hnone
  cases hnone

theorem Admission.update (h : Admission options owed manager) (hfound : manager.producers id = some producer)
    (hholds : producer'.stage.holds = producer.stage.holds) (hacquiring : producer.stage = .acquiring → producer'.stage = .acquiring) :
    Admission options owed { manager with producers := update manager.producers id (some producer') } := by
  refine ⟨h.conserved, fun other hmem => ?_, fun other hle => ?_, ?_⟩
  · obtain ⟨found, hother, hstage⟩ := h.waiting other hmem
    by_cases heq : other = id
    · subst heq
      obtain rfl := Option.some.inj (hfound.symm.trans hother)
      exact ⟨producer', update_self .., hacquiring hstage⟩
    · exact ⟨found, (update_of_ne heq _ _).trans hother, hstage⟩
  · have hne : other ≠ id := Nat.ne_of_gt (Nat.lt_of_lt_of_le (h.lt hfound) hle)
    exact (update_of_ne hne _ _).trans (h.fresh other hle)
  · show _ + count _ (Function.update manager.producers id (some producer')) _ + _ = _
    rw [count_update_same (by rw [hfound, Option.any_some, hholds])]
    exact h.permits

theorem Admission.owe (h : Admission options 0 manager) (hfound : manager.producers id = some producer)
    (hholds : producer.stage.holds = true) (hends : producer'.stage.holds = false) :
    Admission options 1 { manager with producers := Function.update manager.producers id (some producer') } := by
  have hidle : id ∉ manager.fetchAdmission.waitQueue := by
    intro hmem
    obtain ⟨found, hother, hstage⟩ := h.waiting id hmem
    obtain rfl := Option.some.inj (hfound.symm.trans hother)
    rw [hstage] at hholds
    cases hholds
  refine ⟨h.conserved, fun other hmem => ?_, fun other hle => ?_, ?_⟩
  · obtain ⟨found, hother, hstage⟩ := h.waiting other hmem
    have hne : other ≠ id := fun heq => hidle (heq ▸ hmem)
    exact ⟨found, (update_of_ne hne _ _).trans hother, hstage⟩
  · have hne : other ≠ id := Nat.ne_of_gt (Nat.lt_of_lt_of_le (h.lt hfound) hle)
    exact (update_of_ne hne _ _).trans (h.fresh other hle)
  · show _ + count _ (Function.update manager.producers id (some producer')) _ + _ = _
    have hloss := @count_update_loss _ producer' (fun producer => producer.stage.holds) manager.producers
      manager.fetchAdmission.calls id (h.lt hfound) (by rw [hfound, Option.any_some, hholds]) hends
    have hpermits := h.permits
    dsimp only at hpermits ⊢
    omega

theorem Admission.settle (h : Admission options owed manager) {waiter owed' : Nat} {outcome : PermitSemaphore.Outcome}
    {event : PermitSemaphore.Event} (hwaiter : waiter ∈ manager.fetchAdmission.waitQueue)
    (hevent : outcome = .acquired ↔ event = .release) (howed : owed = owed' + if outcome = .acquired then 1 else 0) :
    ∃ producer, manager.producers waiter = some producer ∧ producer.stage = .acquiring ∧
      manager.withAdmission (PermitSemaphore.settle waiter manager.fetchAdmission, [⟨waiter, outcome⟩]) =
        { manager with
          fetchAdmission := PermitSemaphore.settle waiter manager.fetchAdmission
          producers := Function.update manager.producers waiter (some { producer with stage := admissionStage outcome }) } ∧
      Admission options owed'
        (manager.withAdmission (PermitSemaphore.settle waiter manager.fetchAdmission, [⟨waiter, outcome⟩])) := by
  obtain ⟨events, log, hconserved⟩ := h.conserved
  obtain ⟨producer, hfound, hstage⟩ := h.waiting waiter hwaiter
  have heq : manager.withAdmission (PermitSemaphore.settle waiter manager.fetchAdmission, [⟨waiter, outcome⟩]) =
      { manager with
        fetchAdmission := PermitSemaphore.settle waiter manager.fetchAdmission
        producers := Function.update manager.producers waiter (some { producer with stage := admissionStage outcome }) } := by
    simp only [withAdmission, List.foldl_cons, List.foldl_nil, setProducerStage, hfound, Option.map_some]
  refine ⟨producer, hfound, hstage, heq, ?_⟩
  rw [heq]
  have hnodup : manager.fetchAdmission.waitQueue.Nodup := hconserved.arrival.imp Nat.ne_of_lt
  refine ⟨⟨_, _, hconserved.settle hwaiter hevent⟩, fun other hmem => ?_, fun other hle => ?_, ?_⟩
  · obtain ⟨hne, hold⟩ := hnodup.mem_erase_iff.mp hmem
    obtain ⟨found, hother, hwaits⟩ := h.waiting other hold
    exact ⟨found, (update_of_ne hne _ _).trans hother, hwaits⟩
  · have hne : other ≠ waiter := Nat.ne_of_gt (Nat.lt_of_lt_of_le (h.lt hfound) hle)
    exact (update_of_ne hne _ _).trans (h.fresh other hle)
  · have hlt := h.lt hfound
    have hpermits := h.permits
    have hidle : (manager.producers waiter).any (fun producer => producer.stage.holds) = false := by
      rw [hfound, Option.any_some, hstage]
      rfl
    show manager.fetchAdmission.permits +
      count _ (Function.update manager.producers waiter _) manager.fetchAdmission.calls + owed' = _
    by_cases hacquired : outcome = .acquired
    · rw [count_update_gain hlt hidle (by rw [hacquired]; rfl)]
      rw [if_pos hacquired] at howed
      omega
    · rw [count_update_same (by rw [hidle]; cases outcome <;> first | rfl | exact absurd rfl hacquired)]
      rw [if_neg hacquired] at howed
      omega

theorem calm_stage (producer : Producer) {stage : ProducerStage} (hsettles : stage.isSettled = false → producer.stage.isSettled = false)
    (hstores : stage.isStoring = false) : Registry.Calm producer { producer with stage := stage } :=
  ⟨rfl, rfl, rfl, rfl, rfl, Nat.le_refl _, hsettles, fun h => absurd (hstores.symm.trans h) Bool.false_ne_true⟩

theorem calm_admission (hacquiring : producer.stage = .acquiring) (outcome : PermitSemaphore.Outcome) :
    Registry.Calm producer { producer with stage := admissionStage outcome } :=
  calm_stage producer (fun _ => by rw [hacquiring]; rfl) (by cases outcome <;> rfl)

/-- What the semaphore does is seen by producers only, which move calmly. -/
structure Admits (options : TokenManagerOptions) (manager manager' : TokenManager) : Prop where
  frame : ∃ fetchAdmission producers, manager' = { manager with fetchAdmission := fetchAdmission, producers := producers }
  calm : Registry.CalmAll manager.producers manager'.producers
  admission : Admission options 0 manager'
  calls : manager'.fetchAdmission.calls = manager.fetchAdmission.calls

theorem release_admits (h : Admission options 1 manager) :
    Admits options manager (manager.withAdmission (PermitSemaphore.release manager.fetchAdmission)) := by
  obtain ⟨events, log, hconserved⟩ := h.conserved
  rcases hconserved.release_eq with ⟨-, heq⟩ | ⟨waiter, queue, hqueue, heq⟩
  · have hstep : PermitSemaphore.step manager.fetchAdmission .release =
        some ({ manager.fetchAdmission with permits := manager.fetchAdmission.permits + 1 }, []) := congrArg some heq
    have hpermits := h.permits
    rw [heq]
    refine ⟨⟨_, _, rfl⟩, .refl _, ⟨⟨_, _, PermitSemaphore.conserved_step hconserved hstep⟩, h.waiting, h.fresh, ?_⟩, rfl⟩
    show manager.fetchAdmission.permits + 1 + count _ manager.producers manager.fetchAdmission.calls + 0 = _
    omega
  · have hwaiter : waiter ∈ manager.fetchAdmission.waitQueue := hqueue ▸ List.mem_cons_self
    obtain ⟨next, hnext, hacquiring, hframe, hadmission⟩ :=
      @Admission.settle _ _ _ h _ 0 .acquired .release hwaiter (iff_of_true rfl rfl) rfl
    rw [heq]
    refine ⟨⟨_, _, hframe⟩, ?_, hadmission, ?_⟩ <;> rw [hframe]
    · exact .update hnext (calm_admission hacquiring .acquired)
    · rfl

theorem settleProducer_admits (h : Admission options 0 manager) (hfound : manager.producers id = some producer)
    (hholds : producer.stage.holds = true) (outcome : Except TokenError Text) :
    Admits options manager (manager.settleProducer id outcome) := by
  have hended : manager.setProducerStage id (.settled outcome) = { manager with
      producers := Function.update manager.producers id (some { producer with stage := .settled outcome }) } := by
    rw [setProducerStage, hfound, Option.map_some]
  have howe : Admission options 1 (manager.setProducerStage id (.settled outcome)) := by
    rw [hended]
    exact h.owe hfound hholds rfl
  obtain ⟨⟨fetchAdmission, producers, hframe⟩, hcalm, hadmission, hcalls⟩ := release_admits howe
  refine ⟨⟨fetchAdmission, producers, ?_⟩, ?_, hadmission, hcalls⟩
  · rw [hended] at hframe
    rw [settleProducer, hended]
    exact hframe
  · rw [hended] at hcalm
    rw [settleProducer, hended]
    have hends : Registry.Calm producer { producer with stage := .settled outcome } := calm_stage producer nofun rfl
    exact .trans (.update hfound hends) hcalm

theorem timeoutAdmission_admits (h : Admission options 0 manager) {result : PermitSemaphore.Semaphore × List PermitSemaphore.Settlement}
    (hstep : PermitSemaphore.step manager.fetchAdmission (.timeout id) = some result) :
    Admits options manager (manager.withAdmission result) := by
  obtain ⟨events, log, hconserved⟩ := h.conserved
  obtain ⟨hreach, heq⟩ := Option.ite_none_right_eq_some.mp hstep
  obtain rfl := Option.some.inj heq
  have hwaiter := hconserved.reachable id (.inl hreach)
  rw [PermitSemaphore.giveUp, if_neg (hconserved.unsettled id hwaiter)]
  obtain ⟨next, hnext, hacquiring, hframe, hadmission⟩ :=
    @Admission.settle _ _ _ h _ 0 .refused (.timeout id) hwaiter (by simp) rfl
  refine ⟨⟨_, _, hframe⟩, ?_, hadmission, ?_⟩ <;> rw [hframe]
  · exact .update hnext (calm_admission hacquiring .refused)
  · rfl

structure Aborts (options : TokenManagerOptions) (aborts : Nat → Bool) (manager manager' : TokenManager) : Prop where
  frame : ∃ fetchAdmission producers, manager' = { manager with fetchAdmission := fetchAdmission, producers := producers }
  aborted : Registry.AbortedAll aborts manager.producers manager'.producers
  admission : Admission options 0 manager'
  calls : manager'.fetchAdmission.calls = manager.fetchAdmission.calls

theorem abortProducer_aborts (h : Admission options 0 manager) (id : Nat) :
    Aborts options (fun other => decide (other = id)) manager (manager.abortProducer id) := by
  cases hfound : manager.producers id with
  | none =>
    have hsame : Function.update manager.producers id none = manager.producers := by
      rw [← hfound]
      exact update_eq_self id manager.producers
    have hstep : PermitSemaphore.step manager.fetchAdmission (.abort id) = none := by
      refine if_neg fun hmem => ?_
      obtain ⟨events, log, hconserved⟩ := h.conserved
      obtain ⟨producer, hproducer, -⟩ := h.waiting id (hconserved.reachable id (.inr hmem))
      rw [hfound] at hproducer
      cases hproducer
    have heq : manager.abortProducer id = manager := by
      simp only [abortProducer, hstep, hfound, Option.map_none, hsame]
    rw [heq]
    exact ⟨⟨_, _, rfl⟩, .none_at hfound, h, rfl⟩
  | some producer =>
    have haborted : Admission options 0 { manager with
        producers := Function.update manager.producers id (some { producer with aborted := true }) } :=
      h.update hfound rfl fun hstage => hstage
    cases hstep : PermitSemaphore.step manager.fetchAdmission (.abort id) with
    | none =>
      have heq : manager.abortProducer id = { manager with
          producers := Function.update manager.producers id (some { producer with aborted := true }) } := by
        simp only [abortProducer, hstep, hfound, Option.map_some]
      rw [heq]
      exact ⟨⟨_, _, rfl⟩, .single hfound (.refl _), haborted, rfl⟩
    | some result =>
      obtain ⟨events, log, hconserved⟩ := h.conserved
      obtain ⟨hreach, hresult⟩ := Option.ite_none_right_eq_some.mp hstep
      have hwaiter := hconserved.reachable id (.inr hreach)
      rw [PermitSemaphore.giveUp, if_neg (hconserved.unsettled id hwaiter), Option.some_inj] at hresult
      obtain ⟨next, hnext, hacquiring, hframe, hadmission⟩ :=
        @Admission.settle _ _ _ haborted id 0 .aborted (.abort id) hwaiter (by simp) rfl
      obtain rfl := update_some_iff.mp hnext |>.resolve_right (fun hne => hne.1 rfl) |>.2
      have heq : manager.abortProducer id = { manager with
          fetchAdmission := PermitSemaphore.settle id manager.fetchAdmission
          producers := Function.update manager.producers id
            (some { producer with aborted := true, stage := admissionStage .aborted }) } := by
        simp only [abortProducer, hstep, hfound, Option.map_some, ← hresult]
        rw [hframe, update_idem]
      rw [heq]
      refine ⟨⟨_, _, rfl⟩, .single hfound (calm_admission hacquiring .aborted), ?_, rfl⟩
      rw [hframe, update_idem] at hadmission
      exact hadmission

theorem abortAll_aborts (h : Admission options 0 manager) (ids : List Nat) :
    Aborts options (fun id => decide (id ∈ ids)) manager (ids.foldl abortProducer manager) := by
  induction ids generalizing manager with
  | nil =>
    refine ⟨⟨_, _, rfl⟩, ?_, h, rfl⟩
    simpa using Registry.AbortedAll.nobody manager.producers
  | cons id ids ih =>
    obtain ⟨⟨fetchAdmission, producers, hframe⟩, haborted, hadmission, hcalls⟩ := abortProducer_aborts h id
    obtain ⟨⟨fetchAdmission', producers', hframe'⟩, haborted', hadmission', hcalls'⟩ := ih hadmission
    rw [List.foldl_cons]
    refine ⟨⟨fetchAdmission', producers', ?_⟩, ?_, hadmission', hcalls'.trans hcalls⟩
    · rw [hframe', hframe]
    · have hboth := haborted.trans haborted'
      simpa only [List.mem_cons, Bool.decide_or] using hboth

theorem tryAcquire_cases (semaphore : PermitSemaphore.Semaphore) :
    (0 < semaphore.permits ∧
      PermitSemaphore.tryAcquire (.integer tokenFetchAdmissionTimeoutMs) (some false) semaphore =
        ({ semaphore with calls := semaphore.calls + 1, permits := semaphore.permits - 1 }, [⟨semaphore.calls, .acquired⟩])) ∨
    PermitSemaphore.tryAcquire (.integer tokenFetchAdmissionTimeoutMs) (some false) semaphore =
      ({ semaphore with calls := semaphore.calls + 1 }, [⟨semaphore.calls, .refused⟩]) ∨
    PermitSemaphore.tryAcquire (.integer tokenFetchAdmissionTimeoutMs) (some false) semaphore =
      (PermitSemaphore.enqueue semaphore.calls (some 10000) (some false) { semaphore with calls := semaphore.calls + 1 }, []) := by
  have htimeout : PermitSemaphore.requireAcquireTimeout (.integer tokenFetchAdmissionTimeoutMs) = some (some 10000) := rfl
  simp only [PermitSemaphore.tryAcquire, htimeout]
  rw [if_neg nofun]
  split
  · exact .inl ⟨‹_›, rfl⟩
  · split
    · exact .inr (.inl rfl)
    · exact .inr (.inr rfl)

theorem createProducer_spec (h : Admission options 0 manager) (identity : Identity) (key : Text) (generation : Generation) :
    ∃ fetchAdmission producers,
      manager.createProducer identity key generation =
        { manager with
          fetchAdmission := fetchAdmission
          producers := producers
          pendingRequests := Function.update manager.pendingRequests key (some manager.fetchAdmission.calls) } ∧
      Registry.CalmAll (Function.update manager.producers manager.fetchAdmission.calls
        (some ⟨identity, key, generation, false, .acquiring, manager.invalidated key, manager.invalidated key⟩)) producers ∧
      Admission options 0 (manager.createProducer identity key generation) := by
  obtain ⟨events, log, hconserved⟩ := h.conserved
  have hconserved' := hconserved.tryAcquire (.integer tokenFetchAdmissionTimeoutMs) (some false)
  have hpermits := h.permits
  have hnew {stage : ProducerStage} : ∀ other, manager.fetchAdmission.calls + 1 ≤ other →
      Function.update manager.producers manager.fetchAdmission.calls
        (some ⟨identity, key, generation, false, stage, manager.invalidated key, manager.invalidated key⟩) other = none := by
    intro other hle
    rw [update_of_ne (by omega)]
    exact h.fresh other (by omega)
  have hold {stage : ProducerStage} : ∀ other ∈ manager.fetchAdmission.waitQueue, ∃ producer,
      Function.update manager.producers manager.fetchAdmission.calls
        (some ⟨identity, key, generation, false, stage, manager.invalidated key, manager.invalidated key⟩) other = some producer ∧
      producer.stage = .acquiring := by
    intro other hmem
    obtain ⟨producer, hfound, hstage⟩ := h.waiting other hmem
    exact ⟨producer, (update_of_ne (Nat.ne_of_lt (h.lt hfound)) _ _).trans hfound, hstage⟩
  have hpushed (stage : ProducerStage) : count (·.stage.holds) (Function.update manager.producers manager.fetchAdmission.calls
      (some ⟨identity, key, generation, false, stage, manager.invalidated key, manager.invalidated key⟩))
        (manager.fetchAdmission.calls + 1) =
      count (·.stage.holds) manager.producers manager.fetchAdmission.calls + if stage.holds then 1 else 0 := count_push _
  have hanswered (outcome : PermitSemaphore.Outcome) (fetchAdmission : PermitSemaphore.Semaphore)
      (hresult : PermitSemaphore.tryAcquire (.integer tokenFetchAdmissionTimeoutMs) (some false) manager.fetchAdmission =
        (fetchAdmission, [⟨manager.fetchAdmission.calls, outcome⟩])) :
      manager.createProducer identity key generation =
        { manager with
          fetchAdmission := fetchAdmission
          producers := Function.update manager.producers manager.fetchAdmission.calls
            (some ⟨identity, key, generation, false, admissionStage outcome, manager.invalidated key, manager.invalidated key⟩)
          pendingRequests := Function.update manager.pendingRequests key (some manager.fetchAdmission.calls) } := by
    simp only [createProducer, hresult, withAdmission, List.foldl_cons, List.foldl_nil, setProducerStage, update_self,
      Option.map_some, update_idem]
  rcases tryAcquire_cases manager.fetchAdmission with ⟨hpositive, hresult⟩ | hresult | hresult
  · have heq := hanswered .acquired _ hresult
    rw [hresult] at hconserved'
    refine ⟨_, _, heq, .update_both (calm_admission rfl .acquired) _, ?_⟩
    rw [heq]
    refine ⟨⟨_, _, hconserved'⟩, hold, hnew, ?_⟩
    have hcount := hpushed .admitted
    rw [show ProducerStage.admitted.holds = true from rfl, if_pos rfl] at hcount
    dsimp only at hpermits ⊢
    rw [show admissionStage .acquired = .admitted from rfl, hcount]
    omega
  · have heq := hanswered .refused _ hresult
    rw [hresult] at hconserved'
    refine ⟨_, _, heq, .update_both (calm_admission rfl .refused) _, ?_⟩
    rw [heq]
    exact ⟨⟨_, _, hconserved'⟩, hold, hnew, (congrArg _ (hpushed _)).trans hpermits⟩
  · have heq : manager.createProducer identity key generation =
        { manager with
          fetchAdmission := PermitSemaphore.enqueue manager.fetchAdmission.calls (some 10000) (some false)
            { manager.fetchAdmission with calls := manager.fetchAdmission.calls + 1 }
          producers := Function.update manager.producers manager.fetchAdmission.calls
            (some ⟨identity, key, generation, false, .acquiring, manager.invalidated key, manager.invalidated key⟩)
          pendingRequests := Function.update manager.pendingRequests key (some manager.fetchAdmission.calls) } := by
      simp only [createProducer, hresult, withAdmission, List.foldl_nil]
    rw [hresult] at hconserved'
    refine ⟨_, _, heq, .refl _, ?_⟩
    rw [heq]
    refine ⟨⟨_, _, hconserved'⟩, fun other hmem => ?_, hnew, ?_⟩
    · rcases List.mem_append.mp hmem with hwaits | hlast
      · exact hold other hwaits
      · obtain rfl := List.mem_singleton.mp hlast
        exact ⟨_, update_self .., rfl⟩
    · exact (congrArg _ (hpushed _)).trans hpermits

end Admission

/-! ## Calls -/

/-- The slots that are taken are those of the calls that have not ended. -/
structure Active (manager : TokenManager) : Prop where
  slots : manager.activeResolutions = count (fun call => !call.stage.isSettled) manager.calls manager.callCount
  fresh : ∀ id, manager.callCount ≤ id → manager.calls id = none

theorem Active.lt (h : Active manager) {call : Call} (hfound : manager.calls id = some call) : id < manager.callCount := by
  by_contra hle
  have hnone := h.fresh id (Nat.le_of_not_lt hle)
  rw [hfound] at hnone
  cases hnone

/-- What holds between two awaits. -/
structure Inv (cases : CaseMapping) (strict : Prop) (options : TokenManagerOptions) (manager : TokenManager) : Prop where
  sound : manager.Sound cases strict
  admission : manager.Admission options 0
  active : manager.Active

variable {options : TokenManagerOptions} {call : Call}

theorem setCallStage_eq (hcall : manager.calls id = some call) (stage : CallStage) :
    manager.setCallStage id stage = { manager with calls := update manager.calls id (some { call with stage := stage }) } := by
  rw [setCallStage, hcall, Option.map_some]

namespace Inv

theorem initial (cases : CaseMapping) (strict : Prop) (options : TokenManagerOptions) : Inv cases strict options (TokenManager.initial options) where
  sound := .initial options
  admission := .initial options
  active := ⟨rfl, fun _ _ => rfl⟩

theorem setCall (h : Inv cases strict options manager) (hcall : manager.calls id = some call) (hopen : call.stage.isSettled = false)
    {call' : Call} (hgoes : call'.stage.isSettled = false) (hsound : Registry.CallSound cases strict manager.registry call') :
    Inv cases strict options { manager with calls := update manager.calls id (some call') } := by
  refine ⟨h.sound.updateCall hsound _ _, ⟨h.admission.conserved, h.admission.waiting, h.admission.fresh,
    h.admission.permits⟩, ⟨?_, fun other hle => ?_⟩⟩
  · refine h.active.slots.trans (count_update_same ?_).symm
    rw [hcall, Option.any_some, hopen, hgoes]
  · have hne : other ≠ id := Nat.ne_of_gt (Nat.lt_of_lt_of_le (h.active.lt hcall) hle)
    exact (update_of_ne hne _ _).trans (h.active.fresh other hle)

theorem setCallStage (h : Inv cases strict options manager) (hcall : manager.calls id = some call) (hopen : call.stage.isSettled = false)
    {stage : CallStage} (hstage : manager.registry.StageSound strict call.key call.startedAfter stage) (hgoes : stage.isSettled = false) :
    Inv cases strict options (manager.setCallStage id stage) := by
  have hold := h.sound.calls id call hcall
  rw [setCallStage_eq hcall]
  exact h.setCall hcall hopen hgoes ⟨hold.keyed, hold.started, hstage⟩

theorem settleCall (h : Inv cases strict options manager) (hcall : manager.calls id = some call) (hopen : call.stage.isSettled = false)
    {outcome : Outcome} (hstage : manager.registry.StageSound strict call.key call.startedAfter (.settled outcome)) :
    Inv cases strict options (manager.settleCall id outcome) := by
  have hold := h.sound.calls id call hcall
  have hsound : Registry.CallSound cases strict manager.registry { call with stage := .settled outcome } := ⟨hold.keyed, hold.started, hstage⟩
  rw [TokenManager.settleCall, setCallStage_eq hcall]
  refine ⟨h.sound.updateCall hsound _ _, ⟨h.admission.conserved, h.admission.waiting, h.admission.fresh,
    h.admission.permits⟩, ⟨?_, fun other hle => ?_⟩⟩
  · have hslots := h.active.slots
    have hloss := @count_update_loss _ { call with stage := .settled outcome } (fun call => !call.stage.isSettled) manager.calls
      manager.callCount id (h.active.lt hcall) (by rw [hcall, Option.any_some, hopen]; rfl) rfl
    show manager.activeResolutions - 1 = count _ (update manager.calls id _) manager.callCount
    omega
  · have hne : other ≠ id := Nat.ne_of_gt (Nat.lt_of_lt_of_le (h.active.lt hcall) hle)
    exact (update_of_ne hne _ _).trans (h.active.fresh other hle)

theorem shrink (h : Inv cases strict options manager) {cache : Text → Option Cached} {negativeCache : List NegativeCacheEntry}
    (hcache : ∀ key cached, cache key = some cached → manager.cache key = some cached)
    (hnegative : ∀ entry ∈ negativeCache, entry ∈ manager.negativeCache) :
    Inv cases strict options { manager with cache := cache, negativeCache := negativeCache } :=
  ⟨h.sound.shrink hcache hnegative, ⟨h.admission.conserved, h.admission.waiting, h.admission.fresh, h.admission.permits⟩,
    ⟨h.active.slots, h.active.fresh⟩⟩

end Inv

/-! ## Joining a producer -/

variable {generation : Generation}

theorem findPending_some {fetch : Nat} (h : manager.findPending key generation = some fetch) :
    manager.pendingRequests key = some fetch ∧
      ∃ producer, manager.producers fetch = some producer ∧ producer.generation = generation := by
  rw [findPending] at h
  split at h
  · rename_i id hpending
    obtain ⟨hany, heq⟩ := Option.ite_none_right_eq_some.mp h
    obtain rfl := Option.some.inj heq
    obtain ⟨producer, hfound, hgeneration⟩ := (Option.any_eq_true _ _).mp hany
    exact ⟨hpending, producer, hfound, of_decide_eq_true hgeneration⟩
  · cases h

theorem findPending_none (h : manager.findPending key generation = none) {fetch : Nat} {producer : Producer}
    (hpending : manager.pendingRequests key = some fetch) (hfound : manager.producers fetch = some producer) :
    producer.generation ≠ generation := by
  rintro rfl
  simp [findPending, hpending, hfound] at h

theorem Sound.join (h : manager.Sound cases strict) {fetch count : Nat}
    (hfind : manager.findPending key (manager.generations.current key) = some fetch) (hcount : count ≤ manager.invalidated key) :
    manager.registry.Fresh strict key count fetch := by
  obtain ⟨hpending, producer, hfound, hgeneration⟩ := findPending_some hfind
  obtain ⟨found, hfound', hkey⟩ := h.registry.pending key fetch hpending
  obtain rfl := Option.some.inj (hfound.symm.trans hfound')
  refine ⟨producer, hfound, hkey, fun _ => Nat.le_trans hcount (Nat.le_of_eq ?_)⟩
  have hmade := (h.registry.producers fetch producer hfound).made
  rw [hkey] at hmade
  exact (hmade hgeneration).symm

/-- A registered request of the key is behind the generations, its write to the cache is in flight, and nothing has aborted it. -/
def overtakes (manager : TokenManager) (key : Text) : Bool :=
  match manager.pendingRequests key with
  | some id => (manager.producers id).any fun producer =>
    producer.stage.isStoring && !producer.aborted && decide (producer.generation ≠ manager.generations.current key)
  | none => false

/-- No call comes back from the cache to such a request. -/
def safe (manager : TokenManager) : Action → Bool
  | .resumeCall id _ =>
    match manager.calls id with
    | some ⟨_, key, .read _ _, _, _⟩ | some ⟨_, key, .deleted _, _, _⟩ => !manager.overtakes key
    | _ => true
  | _ => true

namespace Inv

theorem attach (h : Inv cases strict options manager) (hcall : manager.calls id = some call) (hopen : call.stage.isSettled = false)
    (hsafe : strict → manager.overtakes call.key = false) :
    Inv cases strict options (manager.attach id call (manager.generations.current call.key)) := by
  have hold := h.sound.calls id call hcall
  rw [TokenManager.attach]
  split
  · exact h.setCallStage hcall hopen (h.sound.join ‹_› hold.started) rfl
  · rename_i hfind
    obtain ⟨fetchAdmission, producers, heq, hcalm, hadmission⟩ :=
      createProducer_spec h.admission call.identity call.key (manager.generations.current call.key)
    obtain ⟨hregistered, hlater⟩ := h.sound.registry.register hold.keyed (h.admission.fresh _ (Nat.le_refl _))
      fun other producer hpending hfound => by
        have hne := findPending_none hfind hpending hfound
        refine ⟨hne, fun hstrict hstores => Bool.not_eq_false _ |>.mp fun haborted => ?_⟩
        have hsafe := hsafe hstrict
        have hpending' : manager.pendingRequests call.key = some other := hpending
        have hfound' : manager.producers other = some producer := hfound
        rw [overtakes, hpending'] at hsafe
        simp [hfound', hstores, haborted, hne] at hsafe
    have hcreated : Inv cases strict options
        (manager.createProducer call.identity call.key (manager.generations.current call.key)) := by
      refine ⟨?_, hadmission, ?_⟩ <;> rw [heq]
      · exact h.sound.goOn (hregistered.calm hcalm) (hlater.trans (.calm hcalm)) (fun _ _ _ hcovered => hcovered) rfl rfl rfl
      · exact ⟨h.active.slots, h.active.fresh⟩
    refine hcreated.setCallStage (by rw [heq]; exact hcall) hopen ?_ rfl
    obtain ⟨producer, hfound, hmoved⟩ := hcalm.forth (update_self ..)
    rw [heq]
    refine ⟨producer, hfound, hmoved.key, fun _ => ?_⟩
    rw [hmoved.madeAfter]
    exact hold.started

theorem proceed (h : Inv cases strict options manager) (hcall : manager.calls id = some call) (hopen : call.stage.isSettled = false)
    (hpassed : manager.registry.Passed call.key call.startedAfter fun _ _ => False) (now : Int) :
    Inv cases strict options (manager.proceed id call now) := by
  have hold := h.sound.calls id call hcall
  simp only [TokenManager.proceed]
  split
  · exact h.setCallStage hcall hopen (h.sound.join ‹_› hold.started) rfl
  · split
    · rename_i entry hfind
      have hkey : entry.key = call.key := by simpa using List.find?_some hfind
      split
      · obtain ⟨producer, hproducer, hproducerKey, hcovered⟩ := h.sound.rejected entry (List.mem_of_find?_eq_some hfind)
        rw [hkey] at hproducerKey hcovered
        refine h.settleCall hcall hopen ⟨producer, hproducer, hproducerKey, fun _ => ?_⟩
        exact hpassed.young hcovered (fun purge hkind hfinished => absurd (hkind.2.symm.trans hfinished) nofun) hold.started
      · have hshrunk : Inv cases strict options { manager with
            negativeCache := manager.negativeCache.filter (·.key ≠ call.key) } :=
          h.shrink (fun _ _ hfound => hfound) fun _ hmem => (List.mem_filter.mp hmem).1
        exact hshrunk.setCallStage hcall hopen hpassed rfl
    · exact h.setCallStage hcall hopen hpassed rfl

theorem awaitInvalidation (h : Inv cases strict options manager) (hcall : manager.calls id = some call) (hopen : call.stage.isSettled = false)
    (hpassed : manager.registry.Passed call.key call.startedAfter fun _ target => target = some call.key) (now : Int) :
    Inv cases strict options (manager.awaitInvalidation id call now) := by
  have hregistered {other : Nat} {purge : Purge} (hfound : manager.purges other = some purge) (hpurge : purge.Open call.key)
      (hle : ¬ call.startedAfter < purge.counts call.key) : manager.invalidations call.key = some other := by
    have htarget : purge.target = some call.key := by
      by_contra hne
      exact hle (hpassed other purge hfound hpurge hne)
    exact (h.sound.registry.purges other purge hfound).invalidating call.key htarget hpurge.2
  rw [TokenManager.awaitInvalidation]
  split
  · rename_i purgeId hpromise
    refine h.setCallStage hcall hopen (fun other purge hfound hpurge hne => ?_) rfl
    by_contra hle
    exact hne (Option.some.inj ((hregistered hfound hpurge hle).symm.trans hpromise))
  · rename_i hpromise
    refine h.proceed hcall hopen (fun other purge hfound hpurge _ => ?_) now
    by_contra hle
    exact absurd ((hregistered hfound hpurge hle).symm.trans hpromise) nofun

theorem awaitMaintenance (h : Inv cases strict options manager) (hcall : manager.calls id = some call) (hopen : call.stage.isSettled = false)
    (now : Int) : Inv cases strict options (manager.awaitMaintenance id call now) := by
  have hregistered {other : Nat} {purge : Purge} (hfound : manager.purges other = some purge) (hpurge : purge.Open call.key)
      (hne : purge.target ≠ some call.key) : manager.maintenancePromise = some other :=
    (h.sound.registry.purges other purge hfound).clearing (hpurge.1.resolve_right hne) hpurge.2
  rw [TokenManager.awaitMaintenance]
  split
  · rename_i purgeId hpromise
    refine h.setCallStage hcall hopen (fun other purge hfound hpurge hnot => ?_) rfl
    rw [not_or] at hnot
    exact absurd (Option.some.inj ((hregistered hfound hpurge hnot.2).symm.trans hpromise)) hnot.1
  · rename_i hpromise
    refine h.awaitInvalidation hcall hopen (fun other purge hfound hpurge hne => ?_) now
    exact absurd ((hregistered hfound hpurge hne).symm.trans hpromise) nofun

theorem resumeRead (h : Inv cases strict options manager) {cached : Option Cached}
    (hcall : manager.calls id = some call) (hstage : call.stage = .read generation cached)
    (hsafe : strict → manager.overtakes call.key = false) (now : Int) :
    Inv cases strict options (manager.resumeRead options id call generation cached now) := by
  have hold := h.sound.calls id call hcall
  have hknown := hold.stage
  have hopen : call.stage.isSettled = false := by rw [hstage]; rfl
  rw [hstage] at hknown
  unfold TokenManager.resumeRead
  split
  · exact h.settleCall hcall hopen trivial
  · rename_i hcurrent
    split
    · rename_i entry fetch
      split
      · exact h.settleCall hcall hopen hknown
      · exact h.setCall hcall hopen rfl ⟨hold.keyed, hold.started, trivial⟩
    · obtain rfl : generation = manager.generations.current call.key := by simpa [isGenerationCurrent] using hcurrent
      exact h.attach hcall hopen hsafe

theorem passed_of_finished {purgeId count : Nat} {but : Option Text → Prop} (hfinished : manager.isFinished purgeId = true)
    (h : manager.registry.Passed key count fun id target => id = purgeId ∨ but target) :
    manager.registry.Passed key count fun _ target => but target := by
  intro other purge hfound hpurge hnot
  refine h other purge hfound hpurge (not_or.mpr ⟨?_, hnot⟩)
  rintro rfl
  have hfound' : manager.purges other = some purge := hfound
  rw [isFinished, hfound', Option.any_some] at hfinished
  exact hpurge.2 (of_decide_eq_true hfinished)

theorem resumeCall (h : Inv cases strict options manager) {now : Int} (hsafe : strict → manager.safe (.resumeCall id now) = true)
    (hstep : manager.resumeCall options id now = some manager') : Inv cases strict options manager' := by
  unfold TokenManager.resumeCall at hstep
  rcases hcall : manager.calls id with _ | ⟨identity, key, stage, deletes, startedAfter⟩
  · rw [hcall] at hstep
    cases hstep
  · have hold := (h.sound.calls id _ hcall).stage
    simp only [hcall] at hstep
    simp only [safe, hcall] at hsafe
    cases stage with
    | awaitingMaintenance purgeId =>
      obtain ⟨hfinished, heq⟩ := Option.ite_none_right_eq_some.mp hstep
      obtain rfl := Option.some.inj heq
      exact h.awaitInvalidation hcall rfl (passed_of_finished hfinished hold) now
    | awaitingInvalidation purgeId =>
      obtain ⟨hfinished, heq⟩ := Option.ite_none_right_eq_some.mp hstep
      obtain rfl := Option.some.inj heq
      refine h.proceed hcall rfl (passed_of_finished hfinished ?_) now
      exact fun other purge hfound hpurge hnot => hold other purge hfound hpurge fun heq => hnot (.inl heq)
    | joined producer =>
      dsimp only at hstep
      split at hstep
      · obtain rfl := Option.some.inj hstep
        exact h.settleCall hcall rfl hold
      · obtain rfl := Option.some.inj hstep
        exact h.settleCall hcall rfl trivial
      · cases hstep
    | read generation cached =>
      obtain rfl := Option.some.inj hstep
      exact h.resumeRead hcall rfl (fun hstrict => Bool.not_eq_true' _ |>.mp (hsafe hstrict)) now
    | deleted generation =>
      obtain rfl := Option.some.inj hstep
      split
      · rename_i hcurrent
        obtain rfl : generation = manager.generations.current key := of_decide_eq_true hcurrent
        exact h.attach hcall rfl fun hstrict => Bool.not_eq_true' _ |>.mp (hsafe hstrict)
      · exact h.settleCall hcall rfl trivial
    | starting | reading | deleting | settled => cases hstep

theorem getToken (h : Inv cases strict options manager) (identity : Identity) (now : Int) :
    Inv cases strict options (manager.getToken cases options identity now) := by
  rw [TokenManager.getToken]
  split
  · exact h
  · rename_i key hkey
    split
    · exact h
    · have hbegun : Inv cases strict options { manager with
          calls := update manager.calls manager.callCount
            (some ⟨identity, key, .starting, false, manager.invalidated key⟩)
          callCount := manager.callCount + 1
          activeResolutions := manager.activeResolutions + 1 } := by
        have hsound : Registry.CallSound cases strict manager.registry ⟨identity, key, .starting, false, manager.invalidated key⟩ :=
          ⟨hkey, Nat.le_refl _, trivial⟩
        refine ⟨h.sound.updateCall hsound _ _, ⟨h.admission.conserved, h.admission.waiting, h.admission.fresh,
          h.admission.permits⟩, ⟨?_, fun other hle => ?_⟩⟩
        · refine Eq.trans ?_ (count_push _).symm
          exact congrArg (· + 1) h.active.slots
        · have hlt : manager.callCount < other := hle
          exact (update_of_ne (Nat.ne_of_gt hlt) _ _).trans (h.active.fresh other (Nat.le_of_lt hlt))
      exact hbegun.awaitMaintenance (update_self ..) rfl now

theorem admits (h : Inv cases strict options manager) (hadmits : Admits options manager manager') : Inv cases strict options manager' := by
  obtain ⟨⟨fetchAdmission, producers, rfl⟩, hcalm, hadmission, -⟩ := hadmits
  refine ⟨?_, hadmission, ⟨h.active.slots, h.active.fresh⟩⟩
  exact h.sound.goOn (h.sound.registry.calm hcalm) (.calm hcalm) (fun _ _ _ hcovered => hcovered) rfl rfl rfl

theorem setProducer (h : Inv cases strict options manager) {producer producer' : Producer} (hfound : manager.producers id = some producer)
    (hidentity : producer'.identity = producer.identity) (hkey : producer'.key = producer.key)
    (hmade : producer'.madeAfter = producer.madeAfter) (hsound : manager.registry.ProducerSound strict id producer')
    (hholds : producer'.stage.holds = producer.stage.holds) (hstage : producer.stage ≠ .acquiring) :
    Inv cases strict options { manager with producers := update manager.producers id (some producer') } := by
  refine ⟨?_, h.admission.update hfound hholds fun heq => absurd heq hstage, ⟨h.active.slots, h.active.fresh⟩⟩
  exact h.sound.goOn (h.sound.registry.setProducer hfound hidentity hkey hsound) (.setProducer hfound hkey hmade)
    (fun _ _ _ hcovered => hcovered) rfl rfl rfl

theorem setProducerStage (h : Inv cases strict options manager) {producer : Producer} (hfound : manager.producers id = some producer)
    {stage : ProducerStage} (hsound : manager.registry.ProducerSound strict id { producer with stage := stage })
    (hholds : stage.holds = producer.stage.holds) (hstage : producer.stage ≠ .acquiring) :
    Inv cases strict options (manager.setProducerStage id stage) := by
  rw [TokenManager.setProducerStage, hfound, Option.map_some]
  exact h.setProducer hfound rfl rfl rfl hsound hholds hstage

theorem settleProducer (h : Inv cases strict options manager) {producer : Producer} (hfound : manager.producers id = some producer)
    (hholds : producer.stage.holds = true) (outcome : Except TokenError Text) :
    Inv cases strict options (manager.settleProducer id outcome) :=
  h.admits (settleProducer_admits h.admission hfound hholds outcome)

theorem rememberRejection (h : Inv cases strict options manager) {entry : NegativeCacheEntry}
    (hentry : manager.registry.RejectionSound entry) : Inv cases strict options (manager.rememberRejection entry) := by
  have hkept : ∀ other ∈ (if negativeCacheMaxSize ≤ manager.negativeCache.length then manager.negativeCache.drop 1
      else manager.negativeCache), manager.registry.RejectionSound other := by
    intro other hmem
    split at hmem
    · exact h.sound.rejected other (List.mem_of_mem_drop hmem)
    · exact h.sound.rejected other hmem
  refine ⟨⟨h.sound.registry, h.sound.cached, fun other hmem => ?_, h.sound.calls⟩,
    ⟨h.admission.conserved, h.admission.waiting, h.admission.fresh, h.admission.permits⟩, ⟨h.active.slots, h.active.fresh⟩⟩
  simp only [TokenManager.rememberRejection] at hmem
  generalize (if negativeCacheMaxSize ≤ manager.negativeCache.length then manager.negativeCache.drop 1
    else manager.negativeCache) = kept at hkept hmem
  split at hmem
  · obtain ⟨old, hold, rfl⟩ := List.mem_map.mp hmem
    split
    · exact hentry
    · exact hkept old hold
  · rcases List.mem_append.mp hmem with hold | hnew
    · exact hkept other hold
    · obtain rfl := List.mem_singleton.mp hnew
      exact hentry

theorem completeFetch (h : Inv cases strict options manager) {producer : Producer} (hfound : manager.producers id = some producer)
    (hstage : producer.stage = .fetching) (result : FetchResult) (now : Int) :
    Inv cases strict options (manager.completeFetch id producer result now) := by
  have hsound := h.sound.registry.producers id producer hfound
  have hholds : producer.stage.holds = true := by rw [hstage]; rfl
  have hcurrent : (manager.isGenerationCurrent producer.key producer.generation && !producer.aborted) = true →
      producer.generation = manager.generations.current producer.key ∧ producer.aborted = false := by
    rw [Bool.and_eq_true, Bool.not_eq_true']
    exact fun hboth => ⟨of_decide_eq_true hboth.1, hboth.2⟩
  unfold TokenManager.completeFetch
  cases result with
  | response accessToken expiresAt =>
    dsimp only
    split
    · rename_i hboth
      obtain ⟨hgeneration, haborted⟩ := hcurrent hboth
      refine h.setProducerStage hfound (hsound.store hgeneration (by rw [hstage]; rfl) haborted _) ?_ ?_ <;> rw [hstage]
      · rfl
      · nofun
    · exact h.settleProducer hfound hholds _
  | oauthTokenRequestError status responseText =>
    dsimp only
    split
    · rename_i hboth
      obtain ⟨hgeneration, -⟩ := hcurrent (Bool.and_eq_true_iff.mp hboth).2
      have hremembered : Inv cases strict options (manager.rememberRejection ⟨producer.key, status, responseText, now, id⟩) :=
        h.rememberRejection ⟨producer, hfound, rfl, .inl (hsound.made hgeneration)⟩
      exact hremembered.settleProducer hfound hholds _
    · exact h.settleProducer hfound hholds _
  | otherError => exact h.settleProducer hfound hholds _

theorem settleStore (h : Inv cases strict options manager) {producer : Producer} (hfound : manager.producers id = some producer)
    {entry : TokenCacheEntry Int} (hstage : producer.stage = .storing entry) :
    Inv cases strict options ({ manager with cache := update manager.cache producer.key (some (entry, id)) }.setProducerStage id
      (.stored entry.token)) := by
  have hsound := h.sound.registry.producers id producer hfound
  have hwritten : Inv cases strict options { manager with cache := update manager.cache producer.key (some (entry, id)) } := by
    refine ⟨⟨h.sound.registry, fun key cached fetch hcached => ?_, h.sound.rejected, h.sound.calls⟩,
      ⟨h.admission.conserved, h.admission.waiting, h.admission.fresh, h.admission.permits⟩, ⟨h.active.slots, h.active.fresh⟩⟩
    rcases update_some_iff.mp hcached with ⟨rfl, heq⟩ | ⟨-, hold⟩
    · obtain ⟨-, rfl⟩ := Prod.mk.inj heq
      exact ⟨producer, hfound, rfl, fun hstrict => hsound.covered hstrict (by rw [hstage]; rfl)⟩
    · exact h.sound.cached key cached fetch hold
  refine hwritten.setProducerStage hfound ((calm_stage producer ?_ rfl).sound hsound) ?_ ?_ <;> rw [hstage]
  · exact fun _ => rfl
  · rfl
  · nofun

theorem removeSettledRequest (h : Inv cases strict options manager) {producer : Producer} (hfound : manager.producers id = some producer)
    (hsettled : producer.stage.isSettled = true) (hpending : manager.pendingRequests key = some id) :
    Inv cases strict options { manager with pendingRequests := update manager.pendingRequests key none } := by
  refine ⟨?_, ⟨h.admission.conserved, h.admission.waiting, h.admission.fresh, h.admission.permits⟩,
    ⟨h.active.slots, h.active.fresh⟩⟩
  exact h.sound.goOn (h.sound.registry.unregister hfound hsettled hpending)
    ⟨fun _ found hfound => ⟨found, hfound, rfl, rfl⟩, fun _ purge' _ hpurge hopen => .inl ⟨purge', hpurge, hopen, rfl, rfl⟩,
      fun _ => Nat.le_refl _⟩
    (fun _ _ _ hcovered => hcovered) rfl rfl rfl

theorem forget (h : Inv cases strict options manager) (key : Text) :
    Inv cases strict options { manager with cache := update manager.cache key none } :=
  h.shrink (fun _ _ hfound => (update_none_iff.mp hfound).2) fun _ hmem => hmem

/-! ## Purges -/

theorem movePurge (h : Inv cases strict options manager) {purge : Purge} {stage : PurgeStage} {cache : Text → Option Cached}
    {negativeCache : List NegativeCacheEntry} {invalidations : Text → Option Nat} {maintenancePromise : Option Nat}
    (hmoves : Registry.Moves manager.registry (registry { manager with
      invalidations := invalidations, maintenancePromise := maintenancePromise,
      purges := update manager.purges id (some { purge with stage := stage }) }) id purge stage)
    (hcache : ∀ key cached, cache key = some cached → manager.cache key = some cached ∧
      (purge.Affects key → Registry.Deleting purge → Registry.Deleting { purge with stage := stage }))
    (hnegative : ∀ entry ∈ negativeCache, entry ∈ manager.negativeCache ∧
      (Registry.Clearing purge → Registry.Clearing { purge with stage := stage })) :
    Inv cases strict options { manager with
      cache := cache, negativeCache := negativeCache, invalidations := invalidations, maintenancePromise := maintenancePromise,
      purges := update manager.purges id (some { purge with stage := stage }) } := by
  refine ⟨⟨hmoves.sound h.sound.registry, fun key entry fetch hfound => ?_, fun entry hmem => ?_,
    fun call found hfound => hmoves.later.call (h.sound.calls call found hfound)⟩,
    ⟨h.admission.conserved, h.admission.waiting, h.admission.fresh, h.admission.permits⟩, ⟨h.active.slots, h.active.fresh⟩⟩
  · obtain ⟨hold, hkind⟩ := hcache key _ hfound
    obtain ⟨producer, hproducer, hkey, hcovered⟩ := h.sound.cached key entry fetch hold
    exact ⟨producer, hproducer, hkey, fun hstrict => hmoves.covered hkind (hcovered hstrict)⟩
  · obtain ⟨hold, hkind⟩ := hnegative entry hmem
    obtain ⟨producer, hproducer, hkey, hcovered⟩ := h.sound.rejected entry hold
    exact ⟨producer, hproducer, hkey, hmoves.covered (fun _ => hkind) hcovered⟩

theorem resumePurge (h : Inv cases strict options manager) {purge : Purge} (hfound : manager.purges id = some purge)
    (hstage : purge.stage = .waiting)
    (hsettled : ∀ producer ∈ purge.producers, (manager.producers producer).any (·.stage.isSettled) = true) :
    Inv cases strict options { manager with
      negativeCache := if purge.target = none then [] else manager.negativeCache
      purges := update manager.purges id (some { purge with stage := .deleting }) } := by
  refine h.movePurge ⟨hfound, fun _ other hmem producer hproducer => ?_, ⟨rfl, rfl, rfl, rfl, rfl⟩, rfl,
    fun _ => ⟨by rw [hstage]; nofun, rfl, rfl⟩, fun _ _ => ⟨fun _ heq => heq, fun heq => heq⟩⟩ (fun key cached hcached => ⟨hcached, fun _ _ => .inr rfl⟩)
    fun entry hmem => ?_
  · have hany := hsettled other hmem
    have hproducer' : manager.producers other = some producer := hproducer
    rw [hproducer', Option.any_some] at hany
    cases hproducerStage : producer.stage with
    | storing => rw [hproducerStage] at hany; cases hany
    | _ => rfl
  · split at hmem
    · cases hmem
    · rename_i htarget
      exact ⟨hmem, fun hclearing => absurd hclearing.1 htarget⟩

theorem settlePurge (h : Inv cases strict options manager) {purge : Purge} (hfound : manager.purges id = some purge)
    (hstage : purge.stage = .deleting) :
    Inv cases strict options { manager with
      cache := match purge.target with
        | some key => update manager.cache key none
        | none => fun _ => none
      purges := update manager.purges id (some { purge with stage := .applied }) } := by
  refine h.movePurge ⟨hfound, fun hwaiting => absurd (hstage.symm.trans hwaiting) nofun, ⟨rfl, rfl, rfl, rfl, rfl⟩, rfl,
    fun _ => ⟨by rw [hstage]; nofun, rfl, rfl⟩, fun _ _ => ⟨fun _ heq => heq, fun heq => heq⟩⟩ (fun key cached hcached => ?_)
    fun entry hmem => ⟨hmem, fun hclearing => absurd (hstage.symm.trans hclearing.2) nofun⟩
  cases htarget : purge.target with
  | none => rw [htarget] at hcached; cases hcached
  | some other =>
    rw [htarget] at hcached
    obtain ⟨hne, hold⟩ := update_none_iff.mp hcached
    refine ⟨hold, fun haffects => absurd (haffects.resolve_left ?_) ?_⟩ <;> rw [htarget]
    · nofun
    · exact fun heq => hne (Option.some.inj heq).symm

theorem finishPurge (h : Inv cases strict options manager) {purge : Purge} (hfound : manager.purges id = some purge)
    (hstage : purge.stage = .applied) :
    Inv cases strict options { manager with
      invalidations := match purge.target with
        | some key => if manager.invalidations key = some id then update manager.invalidations key none else manager.invalidations
        | none => manager.invalidations
      maintenancePromise := match purge.target with
        | some _ => manager.maintenancePromise
        | none => if manager.maintenancePromise = some id then none else manager.maintenancePromise
      purges := update manager.purges id (some { purge with stage := .finished }) } := by
  refine h.movePurge ⟨hfound, fun hwaiting => absurd (hstage.symm.trans hwaiting) nofun, ⟨rfl, rfl, rfl, rfl, rfl⟩, rfl,
    fun hne => absurd rfl hne, fun other hne => ⟨fun key hpromise => ?_, fun hpromise => ?_⟩⟩
    (fun key cached hcached => ⟨hcached, fun _ hdeleting => ?_⟩)
    fun entry hmem => ⟨hmem, fun hclearing => absurd (hstage.symm.trans hclearing.2) nofun⟩
  · cases htarget : purge.target with
    | none => exact hpromise
    | some key' =>
      show (if manager.invalidations key' = some id then update manager.invalidations key' none else manager.invalidations) key =
        some other
      split
      · rename_i hself
        have hkey : key ≠ key' := by
          rintro rfl
          exact hne (Option.some.inj (hpromise.symm.trans hself))
        exact (update_of_ne hkey _ _).trans hpromise
      · exact hpromise
  · cases htarget : purge.target with
    | some _ => exact hpromise
    | none =>
      show (if manager.maintenancePromise = some id then none else manager.maintenancePromise) = some other
      have hself : ¬ manager.maintenancePromise = some id := fun hself => hne (Option.some.inj (hpromise.symm.trans hself))
      rw [if_neg hself]
      exact hpromise
  · rw [Registry.Deleting, hstage] at hdeleting
    exact absurd hdeleting (not_or.mpr ⟨nofun, nofun⟩)

theorem purge (h : Inv cases strict options manager) {purge : Purge}
    (hpurges : Registry.Purges manager.registry manager'.registry purge) (hcache : manager'.cache = manager.cache)
    (hnegative : ∀ entry ∈ manager'.negativeCache, entry ∈ manager.negativeCache ∧ (purge.Affects entry.key → Registry.Clearing purge))
    (hadmission : manager'.Admission options 0) (hcalls : manager'.calls = manager.calls) (hactive : manager'.Active) :
    Inv cases strict options manager' := by
  refine ⟨⟨hpurges.sound h.sound.registry, ?_, fun entry hmem => ?_, fun call found hfound => ?_⟩, hadmission, hactive⟩
  · rw [hcache]
    refine h.sound.cached.mono hpurges.later fun key count hcovered => hpurges.covered h.sound.registry (fun _ => ?_) hcovered
    exact hpurges.stage.imp_right And.left
  · obtain ⟨hold, hclearing⟩ := hnegative entry hmem
    exact (h.sound.rejected entry hold).mono hpurges.later fun count hcovered =>
      hpurges.covered h.sound.registry hclearing hcovered
  · rw [hcalls] at hfound
    exact hpurges.later.call (h.sound.calls call found hfound)

theorem invalidates (h : Inv cases strict options manager) {generations : Generations}
    (hbump : manager.generations.bumpGeneration key = some generations) (hnone : manager.invalidations key = none)
    {waits : List Nat} {stage : PurgeStage} (hstage : stage = .waiting ∨ stage = .deleting ∧ waits = [])
    (hwaits : ∀ id, id ∈ waits ↔ manager.pendingRequests key = some id) {producers : Nat → Option Producer}
    (hproducers : Registry.AbortedAll (fun id => decide (id ∈ waits)) manager.producers producers) :
    Registry.Purges manager.registry
      ⟨generations, manager.pendingRequests, producers,
        update manager.purges manager.purgeCount
          (some ⟨some key, waits, stage, update manager.invalidated key (manager.invalidated key + 1)⟩),
        manager.purgeCount + 1, update manager.invalidations key (some manager.purgeCount), manager.maintenancePromise,
        update manager.invalidated key (manager.invalidated key + 1)⟩
      ⟨some key, waits, stage, update manager.invalidated key (manager.invalidated key + 1)⟩ := by
  obtain ⟨hmoved, hrenewed⟩ := Generations.bumpGeneration_moved h.sound.registry.generations hbump
  have hsame {other : Text} (haffects : (some key : Option Text) = none ∨ some key = some other) : other = key :=
    (Option.some.inj (haffects.resolve_left nofun)).symm
  refine ⟨hmoved, fun other haffects => ?_, fun other haffects => ?_, fun other hspared => ?_, rfl, rfl, fun id producer hfound => ?_,
    hproducers, hstage, rfl, rfl, nofun, fun other htarget => ?_⟩
  · rw [hsame haffects]
    exact hrenewed
  · rw [hsame haffects]
    exact update_self ..
  · exact update_of_ne (fun heq => hspared (.inr (congrArg some heq.symm))) _ _
  · refine (hwaits id).trans ⟨fun hpending => ?_, fun ⟨haffects, hpending⟩ => ?_⟩
    · obtain ⟨found, hfound', hkey⟩ := h.sound.registry.pending key id hpending
      obtain rfl := Option.some.inj (hfound.symm.trans hfound')
      rw [hkey]
      exact ⟨.inr rfl, hpending⟩
    · rwa [hsame haffects] at hpending
  · obtain rfl := Option.some.inj htarget
    exact ⟨hnone, rfl, rfl⟩

theorem invalidateToken (h : Inv cases strict options manager) (identity : Identity) :
    Inv cases strict options (manager.invalidateToken cases identity) := by
  unfold TokenManager.invalidateToken
  split
  · exact h
  · rename_i key hkey
    split
    · exact h
    · exact h
    · rename_i generations hnone hbump
      have hnegative : ∀ entry ∈ manager.negativeCache.filter (·.key ≠ key), entry ∈ manager.negativeCache ∧ entry.key ≠ key :=
        fun entry hmem => (List.mem_filter.mp hmem).imp_right of_decide_eq_true
      have hspared {entry : NegativeCacheEntry} (hne : entry.key ≠ key) {purge : Purge} (htarget : purge.target = some key)
          (haffects : purge.Affects entry.key) : Registry.Clearing purge := by
        rw [Purge.Affects, htarget] at haffects
        exact absurd (Option.some.inj (haffects.resolve_left nofun)).symm hne
      dsimp only
      split
      · rename_i producer hpending
        have hbumped : Admission options 0 { manager with
            generations := generations
            negativeCache := manager.negativeCache.filter (·.key ≠ key)
            invalidations := update manager.invalidations key (some manager.purgeCount)
            invalidated := update manager.invalidated key (manager.invalidated key + 1) } :=
          ⟨h.admission.conserved, h.admission.waiting, h.admission.fresh, h.admission.permits⟩
        obtain ⟨⟨fetchAdmission, producers, hframe⟩, haborted, hadmission, -⟩ := abortProducer_aborts hbumped producer
        rw [hframe] at haborted hadmission ⊢
        have hpurges : Registry.Purges _ _ ⟨some key, [producer], .waiting, _⟩ := h.invalidates hbump hnone (.inl rfl)
          (fun id => by rw [hpending, List.mem_singleton, Option.some_inj, eq_comm])
          (by simpa only [List.mem_singleton] using haborted)
        refine h.purge hpurges rfl (fun entry hmem => ?_) ?_ rfl ?_
        · exact ⟨(hnegative entry hmem).1, hspared (hnegative entry hmem).2 rfl⟩
        · exact ⟨hadmission.conserved, hadmission.waiting, hadmission.fresh, hadmission.permits⟩
        · exact ⟨h.active.slots, h.active.fresh⟩
      · rename_i hpending
        have hpurges : Registry.Purges _ _ ⟨some key, [], .deleting, _⟩ := h.invalidates hbump hnone (.inr ⟨rfl, rfl⟩)
          (fun id => by rw [hpending]; exact ⟨nofun, nofun⟩)
          (by simpa using Registry.AbortedAll.nobody manager.producers)
        refine h.purge hpurges rfl (fun entry hmem => ?_) ?_ rfl ?_
        · exact ⟨(hnegative entry hmem).1, hspared (hnegative entry hmem).2 rfl⟩
        · exact ⟨h.admission.conserved, h.admission.waiting, h.admission.fresh, h.admission.permits⟩
        · exact ⟨h.active.slots, h.active.fresh⟩

theorem mem_registered (h : Inv cases strict options manager) {producer : Producer} (hfound : manager.producers id = some producer) :
    id ∈ manager.registered ↔ manager.pendingRequests producer.key = some id := by
  rw [registered, List.mem_filter, hfound, Option.any_some, decide_eq_true_eq, List.mem_range]
  exact and_iff_right (h.admission.lt hfound)

theorem clearCache (h : Inv cases strict options manager) : Inv cases strict options manager.clearCache := by
  unfold TokenManager.clearCache
  split
  · exact h
  · exact h
  · rename_i generations hnone hadvance
    obtain ⟨hmoved, hrenewed⟩ := Generations.advanceGlobalGeneration_moved hadvance
    have hstarted : Admission options 0 { manager with
        generations := generations
        maintenancePromise := some manager.purgeCount
        invalidated := fun key => manager.invalidated key + 1 } :=
      ⟨h.admission.conserved, h.admission.waiting, h.admission.fresh, h.admission.permits⟩
    obtain ⟨⟨fetchAdmission, producers, hframe⟩, haborted, hadmission, -⟩ := abortAll_aborts hstarted manager.registered
    dsimp only
    rw [hframe] at haborted hadmission ⊢
    have hpurges : Registry.Purges manager.registry
        ⟨generations, manager.pendingRequests, producers,
          update manager.purges manager.purgeCount
            (some ⟨none, manager.registered, .waiting, fun key => manager.invalidated key + 1⟩),
          manager.purgeCount + 1, manager.invalidations, some manager.purgeCount, fun key => manager.invalidated key + 1⟩
        ⟨none, manager.registered, .waiting, fun key => manager.invalidated key + 1⟩ :=
      ⟨hmoved, fun key _ => hrenewed key, fun _ _ => rfl, fun key hspared => absurd (.inl rfl) hspared, rfl, rfl,
        fun id producer hfound => (h.mem_registered hfound).trans (and_iff_right (.inl rfl)).symm, haborted, .inl rfl, rfl, rfl,
        fun _ => ⟨hnone, rfl, rfl⟩, nofun⟩
    refine h.purge hpurges rfl (fun entry hmem => ⟨hmem, fun _ => ⟨rfl, rfl⟩⟩) ?_ rfl ?_
    · exact ⟨hadmission.conserved, hadmission.waiting, hadmission.fresh, hadmission.permits⟩
    · exact ⟨h.active.slots, h.active.fresh⟩

theorem settleRead (h : Inv cases strict options manager) (hcall : manager.calls id = some call)
    (hstage : call.stage = .reading generation) :
    Inv cases strict options (manager.setCallStage id (.read generation (manager.cache call.key))) := by
  have hold := h.sound.calls id call hcall
  have hpassed := hold.stage
  rw [hstage] at hpassed
  refine h.setCallStage hcall (by rw [hstage]; rfl) ?_ rfl
  cases hcached : manager.cache call.key with
  | none => trivial
  | some cached =>
    obtain ⟨producer, hproducer, hkey, hcovered⟩ := h.sound.cached call.key cached.1 cached.2 hcached
    refine ⟨producer, hproducer, hkey, fun hstrict =>
      Registry.Passed.young hpassed (hcovered hstrict) (fun purge hkind hfinished => ?_) hold.started⟩
    rw [Registry.Deleting, hfinished] at hkind
    exact absurd hkind (not_or.mpr ⟨nofun, nofun⟩)

theorem settleDelete (h : Inv cases strict options manager) {identity : Identity} {stage : CallStage} {deletes : Bool} {startedAfter : Nat}
    (hcall : manager.calls id = some ⟨identity, key, stage, deletes, startedAfter⟩) :
    Inv cases strict options { manager with
      cache := update manager.cache key none
      calls := update manager.calls id (some ⟨identity, key, stage.settleDelete, false, startedAfter⟩) } := by
  obtain ⟨hkeyed, hstarted, hstage⟩ := h.sound.calls id _ hcall
  have hforgotten := h.forget key
  have hsound : Registry.CallSound cases strict manager.registry ⟨identity, key, stage.settleDelete, false, startedAfter⟩ := by
    refine ⟨hkeyed, hstarted, ?_⟩
    cases stage <;> exact hstage
  refine ⟨hforgotten.sound.updateCall hsound _ _,
    ⟨h.admission.conserved, h.admission.waiting, h.admission.fresh, h.admission.permits⟩, ⟨?_, fun other hle => ?_⟩⟩
  · refine h.active.slots.trans (count_update_same ?_).symm
    rw [hcall, Option.any_some]
    cases stage <;> rfl
  · have hne : other ≠ id := Nat.ne_of_gt (Nat.lt_of_lt_of_le (h.active.lt hcall) hle)
    exact (update_of_ne hne _ _).trans (h.active.fresh other hle)

theorem startFetch (h : Inv cases strict options manager) {producer : Producer} (hfound : manager.producers id = some producer)
    (hstage : producer.stage = .admitted) :
    Inv cases strict options { manager with
      producers := update manager.producers id
        (some { producer with stage := .fetching, beganAfter := manager.invalidated producer.key }) } := by
  obtain ⟨had, made, live, alone, awaited, began, since⟩ := h.sound.registry.producers id producer hfound
  refine h.setProducer hfound rfl rfl rfl ⟨had, made, fun hcurrent _ => live hcurrent (by rw [hstage]; rfl), fun _ => nofun, fun _ => nofun,
    since, since⟩
    ?_ ?_ <;> rw [hstage]
  · rfl
  · nofun

theorem step {action : Action} (h : Inv cases strict options manager) (hsafe : strict → manager.safe action = true)
    (hstep : manager.step cases options action = some manager') : Inv cases strict options manager' := by
  cases action with
  | getToken identity now =>
    obtain rfl := Option.some.inj hstep
    exact h.getToken identity now
  | resumeCall id now => exact h.resumeCall hsafe hstep
  | abortCall id =>
    rw [TokenManager.step] at hstep
    split at hstep
    · obtain ⟨hopen, heq⟩ := Option.ite_none_left_eq_some.mp hstep
      obtain rfl := Option.some.inj heq
      exact h.settleCall ‹_› (Bool.not_eq_true _ |>.mp hopen) trivial
    · cases hstep
  | settleRead id =>
    rw [TokenManager.step] at hstep
    split at hstep
    · rename_i hcall
      obtain rfl := Option.some.inj hstep
      exact h.settleRead hcall rfl
    · cases hstep
  | settleDelete id =>
    rw [TokenManager.step] at hstep
    split at hstep
    · rename_i hcall
      obtain rfl := Option.some.inj hstep
      exact h.settleDelete hcall
    · cases hstep
  | timeoutAdmission id =>
    obtain ⟨result, hresult, rfl⟩ := Option.map_eq_some_iff.mp hstep
    exact h.admits (timeoutAdmission_admits h.admission hresult)
  | startFetch id =>
    rw [TokenManager.step] at hstep
    split at hstep
    · rename_i hfound
      obtain rfl := Option.some.inj hstep
      exact h.startFetch hfound rfl
    · cases hstep
  | completeFetch id result now =>
    rw [TokenManager.step] at hstep
    split at hstep
    · rename_i producer hfound
      split at hstep
      · obtain rfl := Option.some.inj hstep
        exact h.completeFetch hfound ‹_› result now
      · cases hstep
    · cases hstep
  | settleStore id =>
    rw [TokenManager.step] at hstep
    split at hstep
    · rename_i hfound
      obtain rfl := Option.some.inj hstep
      exact h.settleStore hfound rfl
    · cases hstep
  | resumeStore id =>
    rw [TokenManager.step] at hstep
    split at hstep
    · rename_i hfound
      obtain rfl := Option.some.inj hstep
      split
      · exact h.settleProducer hfound rfl _
      · exact h.setProducerStage hfound ((calm_stage _ (fun _ => rfl) rfl).sound (h.sound.registry.producers id _ hfound)) rfl nofun
    · cases hstep
  | settleDiscard id =>
    rw [TokenManager.step] at hstep
    split at hstep
    · rename_i hfound
      obtain rfl := Option.some.inj hstep
      exact (h.forget _).settleProducer hfound rfl _
    · cases hstep
  | removeSettledRequest id =>
    rw [TokenManager.step] at hstep
    split at hstep
    · rename_i hfound
      obtain rfl := Option.some.inj hstep
      split
      · exact h.removeSettledRequest hfound rfl ‹_›
      · exact h
    · cases hstep
  | invalidateToken identity =>
    obtain rfl := Option.some.inj hstep
    exact h.invalidateToken identity
  | clearCache =>
    obtain rfl := Option.some.inj hstep
    exact h.clearCache
  | resumePurge id =>
    rw [TokenManager.step] at hstep
    split at hstep
    · rename_i hfound
      obtain ⟨hsettled, heq⟩ := Option.ite_none_right_eq_some.mp hstep
      obtain rfl := Option.some.inj heq
      exact h.resumePurge hfound rfl (List.all_eq_true.mp hsettled)
    · cases hstep
  | settlePurge id =>
    rw [TokenManager.step] at hstep
    split at hstep
    · rename_i hfound
      obtain rfl := Option.some.inj hstep
      exact h.settlePurge hfound rfl
    · cases hstep
  | finishPurge id =>
    rw [TokenManager.step] at hstep
    split at hstep
    · rename_i hfound
      obtain rfl := Option.some.inj hstep
      exact h.finishPurge hfound rfl
    · cases hstep
  | forget key =>
    obtain rfl := Option.some.inj hstep
    exact h.forget key

end Inv

/-! ## Runs -/

def runSafe (cases : CaseMapping) (options : TokenManagerOptions) (manager : TokenManager) : List Action → Bool
  | [] => true
  | action :: actions => manager.safe action && (manager.step cases options action).all fun next => next.runSafe cases options actions

theorem Inv.steps {actions : List Action} (h : Inv cases strict options manager)
    (hsafe : strict → manager.runSafe cases options actions = true)
    (hrun : actions.foldlM (fun manager => manager.step cases options) manager = some manager') :
    Inv cases strict options manager' := by
  induction actions generalizing manager with
  | nil =>
    cases hrun
    exact h
  | cons action actions ih =>
    rw [List.foldlM_cons] at hrun
    obtain ⟨middle, hstep, hrest⟩ := Option.bind_eq_some_iff.mp hrun
    have hboth (hstrict : strict) : manager.safe action = true ∧ middle.runSafe cases options actions = true := by
      have hrunSafe := hsafe hstrict
      rwa [runSafe, hstep, Option.all_some, Bool.and_eq_true] at hrunSafe
    exact ih (h.step (fun hstrict => (hboth hstrict).1) hstep) (fun hstrict => (hboth hstrict).2) hrest

/-- A fetch that nothing has superseded. -/
def Unsuperseded (manager : TokenManager) (producer : Producer) : Prop :=
  producer.stage.isSettled = false ∧ producer.generation = manager.generations.current producer.key

theorem Inv.young (h : Inv cases strict options manager) (hcall : manager.calls id = some call) {outcome : Outcome} {fetch : Nat}
    (hstage : call.stage = .settled outcome) (hfetch : outcome.fetch? = some fetch) :
    ∃ producer, manager.producers fetch = some producer ∧ producer.identity = call.identity ∧
      (strict → call.startedAfter ≤ producer.beganAfter) := by
  obtain ⟨hkeyed, -, hknown⟩ := h.sound.calls id call hcall
  have hfresh : manager.registry.Fresh strict call.key call.startedAfter fetch := by
    rw [hstage] at hknown
    cases outcome with
    | token | cachedRejection =>
      obtain rfl := Option.some.inj hfetch
      exact hknown
    | rejected => cases hfetch
  obtain ⟨producer, hproducer, hkey, hle⟩ := hfresh
  have hidentity := h.sound.registry.keyed fetch producer hproducer
  rw [hkey] at hidentity
  exact ⟨producer, hproducer, getCacheKey_inj hidentity hkeyed,
    fun hstrict => Nat.le_trans (hle hstrict) (h.sound.registry.producers fetch producer hproducer).began⟩

theorem Inv.one (h : Inv cases strict options manager) {id id' : Nat} {producer producer' : Producer}
    (hfound : manager.producers id = some producer) (hfound' : manager.producers id' = some producer')
    (hidentity : producer.identity = producer'.identity) (hlive : manager.Unsuperseded producer)
    (hlive' : manager.Unsuperseded producer') : id = id' := by
  have hkey : producer.key = producer'.key := by
    have hkeyed := h.sound.registry.keyed id producer hfound
    rw [hidentity, h.sound.registry.keyed id' producer' hfound'] at hkeyed
    exact (Option.some.inj hkeyed).symm
  have hpending := (h.sound.registry.producers id producer hfound).live hlive.2 hlive.1
  have hpending' := (h.sound.registry.producers id' producer' hfound').live hlive'.2 hlive'.1
  rw [hkey] at hpending
  exact Option.some.inj (hpending.symm.trans hpending')

end TokenManager

/-- A call gets what was fetched for its identity, and where every step is safe nothing of a
fetch that began before an invalidation which the call began behind. One fetch that is not superseded is under way for each identity,
and no more fetches than there are permits. Slots and permits come back. -/
theorem run_invalidates {cases : CaseMapping} {options : TokenManagerOptions} {actions : List Action} {manager : TokenManager}
    (hrun : run cases options actions = some manager) :
    (∀ id call outcome fetch, manager.calls id = some call → call.stage = .settled outcome → outcome.fetch? = some fetch →
      ∃ producer, manager.producers fetch = some producer ∧ producer.identity = call.identity ∧
        ((TokenManager.initial options).runSafe cases options actions = true → call.startedAfter ≤ producer.beganAfter)) ∧
    (∀ id id' producer producer', manager.producers id = some producer → manager.producers id' = some producer' →
      producer.identity = producer'.identity → manager.Unsuperseded producer → manager.Unsuperseded producer' → id = id') ∧
    (∀ ids : List Nat, ids.Nodup → (∀ id ∈ ids, (manager.producers id).any (·.stage.holds) = true) →
      ids.length ≤ options.maxConcurrentFetches) ∧
    ((∀ id call, manager.calls id = some call → call.stage.isSettled = true) → manager.activeResolutions = 0) ∧
    ((∀ id producer, manager.producers id = some producer → producer.stage.holds = false) →
      manager.fetchAdmission.permits = options.maxConcurrentFetches) := by
  have hinv := (TokenManager.Inv.initial cases ((TokenManager.initial options).runSafe cases options actions = true) options).steps
    id hrun
  have hpermits := hinv.admission.permits
  refine ⟨fun _ _ _ _ hcall hstage hfetch => hinv.young hcall hstage hfetch,
    fun _ _ _ _ hfound hfound' hidentity hlive hlive' => hinv.one hfound hfound' hidentity hlive hlive', fun ids hnodup hids => ?_,
    fun hsettled => ?_, fun hidle => ?_⟩
  · have hle := @length_le_count _ (fun producer : Producer => producer.stage.holds) manager.producers
      manager.fetchAdmission.calls _ hnodup fun id hmem => by
        obtain ⟨producer, hfound, -⟩ := (Option.any_eq_true _ _).mp (hids id hmem)
        exact ⟨hinv.admission.lt hfound, hids id hmem⟩
    omega
  · rw [hinv.active.slots]
    refine count_eq_zero fun id call hcall => ?_
    rw [hsettled id call hcall]
    rfl
  · rw [count_eq_zero hidle] at hpermits
    omega

/-! ## A revoked token, one that comes back, and a caller that leaves -/

def options : TokenManagerOptions := ⟨120000, 2, 4, 8⟩

def production : Identity := ⟨.production, none, none⟩

def fetches (producer : Nat) (token : String) : List Action :=
  [.startFetch producer, .completeFetch producer (.response (.of token) 3600000) 0, .settleStore producer, .resumeStore producer,
    .removeSettledRequest producer]

def CallStage.outcome? : CallStage → Option Outcome
  | .settled outcome => some outcome
  | _ => none

theorem CallStage.outcome?_eq_some {stage : CallStage} {outcome : Outcome} : stage.outcome? = some outcome ↔ stage = .settled outcome := by
  cases stage <;> simp [outcome?]

def revoked : List Action :=
  [.getToken production 0, .settleRead 0, .resumeCall 0 0] ++ fetches 0 "a" ++ [.resumeCall 0 0] ++
  [.invalidateToken production, .getToken production 0, .settlePurge 0, .finishPurge 0, .resumeCall 1 0, .settleRead 1,
    .resumeCall 1 0] ++ fetches 1 "b" ++ [.resumeCall 1 0]

theorem run_invalidates_revoked : ∃ manager call producer, run latinCases options revoked = some manager ∧
    manager.calls 1 = some call ∧ manager.producers 1 = some producer ∧ producer.identity = call.identity ∧
    call.startedAfter ≤ producer.beganAfter := by
  obtain ⟨manager, hrun⟩ :=
    Option.isSome_iff_exists.mp (by decide : (run latinCases options revoked).isSome)
  have houtcome : (run latinCases options revoked).bind (fun manager => (manager.calls 1).bind (·.stage.outcome?)) =
      some (.token (.of "b") 1) := by decide
  rw [hrun, Option.bind_some] at houtcome
  obtain ⟨call, hcall, hsettled⟩ := Option.bind_eq_some_iff.mp houtcome
  have hstage := CallStage.outcome?_eq_some.mp hsettled
  obtain ⟨producer, hfound, hidentity, hle⟩ := (run_invalidates hrun).1 1 call _ 1 hcall hstage rfl
  exact ⟨manager, call, producer, hrun, hcall, hfound, hidentity, hle (by decide)⟩

/-- An invalidation of a key that is not counted empties the full map of generations. -/
theorem TokenManager.invalidateToken_full (manager : TokenManager) {cases : CaseMapping} {identity : Identity} {key : Text}
    {entries : List (Text × Nat)} (next : Nat) (hkey : getCacheKey cases identity = some key)
    (hidle : manager.invalidations key = none) (hfull : maxTrackedKeyGenerations ≤ entries.length)
    (hnew : entries.lookup key = none) :
    { manager with generations := ⟨0, entries, next⟩ }.invalidateToken cases identity =
      { manager with generations := ⟨1, [], 1⟩ }.invalidateToken cases identity := by
  have hbump : (Generations.mk 0 entries next).bumpGeneration key = (Generations.mk 1 [] 1).bumpGeneration key := by
    rw [Generations.bumpGeneration, Generations.makeRoom, if_pos ⟨hnew, hfull⟩]
    rfl
  simp only [invalidateToken, hkey, hidle, hbump]
  rfl

def writing : List Action :=
  [.getToken production 0, .settleRead 0, .resumeCall 0 0, .startFetch 0, .completeFetch 0 (.response (.of "a") 3600000) 0]

def late : List Action :=
  [.getToken production 0, .settleRead 1, .resumeCall 1 0, .invalidateToken production, .startFetch 1,
    .completeFetch 1 .otherError 0, .resumePurge 1, .settlePurge 1, .finishPurge 1, .settleStore 0, .getToken production 0,
    .settleRead 2, .resumeCall 2 0]

def lateToken (generations : Generations) : Option (Option Outcome × Nat × Nat) := do
  let manager ← run latinCases options writing
  let manager := { manager with generations := generations }.invalidateToken latinCases ⟨.preview, none, none⟩
  let manager ← late.foldlM (fun manager => manager.step latinCases options) manager
  let call ← manager.calls 2
  let producer ← manager.producers 0
  return (call.stage.outcome?, producer.beganAfter, call.startedAfter)

/-- The map of generations is full, and an invalidation of another key empties it and aborts nothing. So a request takes the
place of one whose token is being written, and behind an invalidation that awaits the new request that token comes back. -/
theorem stale_token_comes_back {entries : List (Text × Nat)} (next : Nat) (hfull : maxTrackedKeyGenerations ≤ entries.length)
    (hnew : entries.lookup (stringifyKey .preview "global" []) = none) :
    lateToken ⟨0, entries, next⟩ = some (some (.token (.of "a") 0), 0, 1) := by
  obtain ⟨manager, hrun⟩ := Option.isSome_iff_exists.mp (by decide : (run latinCases options writing).isSome)
  have hidle : (run latinCases options writing).bind
      (fun manager => manager.invalidations (stringifyKey .preview "global" [])) = none := by decide
  rw [hrun, Option.bind_some] at hidle
  have hempty : lateToken ⟨1, [], 1⟩ = some (some (.token (.of "a") 0), 0, 1) := by decide
  have hkey : getCacheKey latinCases ⟨.preview, none, none⟩ = some (stringifyKey .preview "global" []) := rfl
  rw [← hempty, lateToken, lateToken, hrun]
  simp only [Option.bind_eq_bind, Option.bind_some, manager.invalidateToken_full next hkey hidle hfull hnew]

/-- The only caller leaves while its fetch is under way. -/
def deserted : List Action :=
  [.getToken production 0, .settleRead 0, .resumeCall 0 0, .startFetch 0, .abortCall 0]

theorem deserted_holds_permit : ∃ manager, run latinCases options deserted = some manager ∧
    (∀ id call, manager.calls id = some call → call.stage.isSettled = true) ∧
    manager.fetchAdmission.permits ≠ options.maxConcurrentFetches := by
  obtain ⟨manager, hrun⟩ :=
    Option.isSome_iff_exists.mp (by decide : (run latinCases options deserted).isSome)
  have hpermits : (run latinCases options deserted).map (fun manager => manager.fetchAdmission.permits) = some 1 := by
    decide
  have hcalls : (run latinCases options deserted).map
      (fun manager => (manager.callCount, (manager.calls 0).all fun call => call.stage.isSettled)) = some (1, true) := by
    decide
  rw [hrun, Option.map_some, Option.some_inj] at hpermits hcalls
  obtain ⟨hcount, hsettled⟩ := Prod.mk.inj hcalls
  refine ⟨manager, hrun, fun id call hcall => ?_, ?_⟩
  · have hlt := ((TokenManager.Inv.initial _ False options).steps nofun hrun).active.lt hcall
    obtain rfl : id = 0 := by omega
    rwa [hcall, Option.all_some] at hsettled
  · rw [hpermits]
    decide

end Veryfront.Proxy.Tokens
