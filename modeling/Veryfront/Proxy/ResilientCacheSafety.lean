import Mathlib.Data.List.Nodup
import Veryfront.Proxy.ResilientCache

/-!
# What the primary holds

While the circuit is closed and no mutation is under way the primary holds what was acknowledged last, as long as nothing is
remembered behind the back of a recovery.
-/

namespace Veryfront.Proxy.Resilient

open Function

variable {τ : Type} [LE τ]

/-! ## Backends and what is remembered -/

/-- The part of a cache that mutations are kept in. -/
structure Data (τ : Type) where
  primary : Contents τ
  fallback : Contents τ
  pendingMutations : List (Pending τ)
  pendingClear : Bool
  stamps : Nat
  dropped : Text → Bool
  wallReadings : List τ
  acknowledged : List (Mutation τ)

def ResilientCache.data (cache : ResilientCache τ) : Data τ :=
  ⟨cache.primary, cache.fallback, cache.pendingMutations, cache.pendingClear, cache.stamps, cache.dropped, cache.wallReadings,
    cache.acknowledged⟩

def contents (mutations : List (Mutation τ)) : Contents τ := mutations.foldl Mutation.apply fun _ => none

namespace Data

variable {data : Data τ} {key : Text}

def Expired (data : Data τ) (entry : TokenCacheEntry τ) : Prop := ∃ reading ∈ data.wallReadings, entry.expiresAt ≤ reading

def MayLack (data : Data τ) (key : Text) : Prop :=
  data.dropped key = true ∨ ∃ entry, data.fallback key = some entry ∧ data.Expired entry

def Agrees (data : Data τ) (key : Text) : Prop :=
  data.primary key = data.fallback key ∨ (data.primary key = none ∧ data.MayLack key)

def Settled (data : Data τ) : Prop := data.pendingMutations = [] ∧ data.pendingClear = false

def Applied (data : Data τ) (pending : Pending τ) : Prop :=
  data.primary pending.key = pending.mutation.value ∨
    (data.primary pending.key = none ∧ ∃ entry, pending.mutation = .set entry ∧ data.Expired entry)

def Cleared (data : Data τ) : Prop :=
  data.pendingClear = true → ∀ key, key ∉ data.pendingMutations.map Pending.key → data.primary key = none

end Data

/-! ## Mutations -/

section Mutations

variable {mutation : Mutation τ} {key : Text}

omit [LE τ] in
theorem Mutation.apply_untouched (h : mutation.touches key = false) (contents : Contents τ) :
    mutation.apply contents key = contents key := by
  cases mutation with
  | set other entry => exact update_of_ne (Ne.symm (of_decide_eq_false h)) _ _
  | delete other => exact update_of_ne (Ne.symm (of_decide_eq_false h)) _ _
  | clear => cases h

omit [LE τ] in
theorem Mutation.apply_touched (h : mutation.touches key = true) (contents contents' : Contents τ) :
    mutation.apply contents key = mutation.apply contents' key := by
  cases mutation with
  | set other entry =>
    obtain rfl := of_decide_eq_true h
    rw [Mutation.apply, Mutation.apply, update_self, update_self]
  | delete other =>
    obtain rfl := of_decide_eq_true h
    rw [Mutation.apply, Mutation.apply, update_self, update_self]
  | clear => rfl

omit [LE τ] in
theorem contents_snoc (mutations : List (Mutation τ)) (mutation : Mutation τ) :
    contents (mutations ++ [mutation]) = mutation.apply (contents mutations) := List.foldl_concat ..

end Mutations

def Untouched (inFlight : Option (Mutation τ)) (key : Text) : Prop :=
  ∀ mutation, inFlight = some mutation → mutation.touches key = false

/-- The journal and the primary say together what the fallback holds, but for the keys of the mutation in flight. -/
structure Tracked (inFlight : Option (Mutation τ)) (data : Data τ) : Prop where
  history : data.fallback = inFlight.elim (contents data.acknowledged) (·.apply (contents data.acknowledged))
  keys : (data.pendingMutations.map Pending.key).Nodup
  ordered : data.pendingMutations.Pairwise fun pending later => pending.stamp < later.stamp
  stamped : ∀ pending ∈ data.pendingMutations, 0 < pending.stamp ∧ pending.stamp ≤ data.stamps
  listed : ∀ pending ∈ data.pendingMutations, Untouched inFlight pending.key →
    pending.mutation.value = data.fallback pending.key
  unlisted : ∀ key, Untouched inFlight key → key ∉ data.pendingMutations.map Pending.key →
    if data.pendingClear then data.fallback key = none ∨ data.dropped key = true else data.Agrees key

namespace Tracked

variable {inFlight : Option (Mutation τ)} {mutation : Mutation τ} {data : Data τ} {key : Text}

theorem empty : Tracked none (ResilientCache.initial (τ := τ)).data where
  history := rfl
  keys := List.nodup_nil
  ordered := List.Pairwise.nil
  stamped _ := nofun
  listed _ := nofun
  unlisted _ _ _ := .inl rfl

theorem agrees (h : Tracked inFlight data) (hsettled : data.Settled) (huntouched : Untouched inFlight key) : data.Agrees key := by
  have hunlisted := h.unlisted key huntouched (by rw [hsettled.1]; exact List.not_mem_nil)
  rwa [hsettled.2, if_neg Bool.false_ne_true] at hunlisted

omit [LE τ] in
theorem untouched_none (key : Text) : Untouched (none : Option (Mutation τ)) key := nofun

theorem settleFallback (h : Tracked none data) (mutation : Mutation τ) :
    Tracked (some mutation) { data with
      fallback := mutation.apply data.fallback
      dropped := fun key => if mutation.touches key then false else data.dropped key } := by
  have hsame {key : Text} (huntouched : Untouched (some mutation) key) :
      mutation.apply data.fallback key = data.fallback key := Mutation.apply_untouched (huntouched mutation rfl) _
  refine ⟨congrArg mutation.apply h.history, h.keys, h.ordered, h.stamped, fun pending hmem huntouched => ?_,
    fun key huntouched hkey => ?_⟩
  · exact (h.listed pending hmem (untouched_none _)).trans (hsame huntouched).symm
  · have hunlisted := h.unlisted key (untouched_none _) hkey
    simp only [Data.Agrees, Data.MayLack, hsame huntouched, huntouched mutation rfl, Bool.false_eq_true, if_false]
    exact hunlisted

theorem settlePrimary (h : Tracked (some mutation) data) :
    Tracked (some mutation) { data with primary := mutation.apply data.primary } := by
  refine ⟨h.history, h.keys, h.ordered, h.stamped, h.listed, fun key huntouched hkey => ?_⟩
  have hunlisted := h.unlisted key huntouched hkey
  simp only [Data.Agrees, Mutation.apply_untouched (huntouched mutation rfl)]
  exact hunlisted

theorem readWallClock (h : Tracked inFlight data) (reading : τ) :
    Tracked inFlight { data with wallReadings := data.wallReadings ++ [reading] } := by
  refine ⟨h.history, h.keys, h.ordered, h.stamped, h.listed, fun key huntouched hkey => ?_⟩
  have hunlisted := h.unlisted key huntouched hkey
  dsimp only
  split at hunlisted
  · rwa [if_pos ‹_›]
  · rw [if_neg ‹_›]
    refine hunlisted.imp_right fun ⟨hnone, hlack⟩ => ⟨hnone, hlack.imp_right ?_⟩
    rintro ⟨entry, hentry, reading, hmem, hle⟩
    exact ⟨entry, hentry, reading, List.mem_append_left _ hmem, hle⟩

theorem complete (h : Tracked (some mutation) data) (hsettled : data.Settled)
    (heffect : ∀ key, mutation.touches key = true → data.primary key = data.fallback key) :
    Tracked none { data with pendingMutations := [], pendingClear := false, acknowledged := data.acknowledged ++ [mutation] } := by
  refine ⟨h.history.trans (contents_snoc _ _).symm, List.nodup_nil, List.Pairwise.nil, nofun, nofun, fun key _ _ => ?_⟩
  rw [if_neg Bool.false_ne_true]
  cases htouched : mutation.touches key with
  | true => exact .inl (heffect key htouched)
  | false =>
    exact h.agrees hsettled fun other hother => by
      obtain rfl := Option.some.inj hother
      exact htouched

theorem rememberClear (h : Tracked (some .clear) data) :
    Tracked none { data with pendingClear := true, pendingMutations := [], acknowledged := data.acknowledged ++ [.clear] } := by
  refine ⟨?_, List.nodup_nil, List.Pairwise.nil, nofun, nofun, fun key _ _ => ?_⟩
  · exact h.history.trans (contents_snoc data.acknowledged .clear).symm
  · rw [if_pos rfl]
    exact .inl (congrFun h.history key)

theorem rememberMutation (h : Tracked (some mutation) data) {pending : PendingMutation τ}
    (htouches : ∀ other, mutation.touches other = true → other = key)
    (hvalue : mutation.apply (contents data.acknowledged) key = pending.value) (overflows : Bool) {kept : List (Pending τ)}
    (hkept : kept = if overflows then [] else data.pendingMutations.filter (·.key ≠ key)) :
    Tracked none { data with
      pendingClear := data.pendingClear || overflows
      pendingMutations := kept ++ [⟨data.stamps + 1, key, pending⟩]
      stamps := data.stamps + 1
      dropped := fun other => if other = key then data.dropped key else data.dropped other || overflows
      acknowledged := data.acknowledged ++ [mutation] } := by
  have hsub : kept.Sublist data.pendingMutations := by
    rw [hkept]
    split
    · exact List.nil_sublist _
    · exact List.filter_sublist
  have hother : ∀ old ∈ kept, old.key ≠ key := by
    intro old hmem
    rw [hkept] at hmem
    split at hmem
    · cases hmem
    · simpa using (List.mem_filter.mp hmem).2
  have huntouched {other : Text} (hne : other ≠ key) : Untouched (some mutation) other := by
    rintro found hfound
    obtain rfl := Option.some.inj hfound
    exact Bool.eq_false_iff.mpr fun htouched => hne (htouches other htouched)
  refine ⟨h.history.trans (contents_snoc _ _).symm, ?_, ?_, fun found hmem => ?_, fun found hmem _ => ?_, fun other _ hnot => ?_⟩
  · rw [List.map_append, List.map_singleton]
    refine List.nodup_append.mpr ⟨h.keys.sublist (hsub.map _), List.nodup_singleton _, ?_⟩
    rintro other hold _ hnew rfl
    obtain ⟨old, hmem, heq⟩ := List.mem_map.mp hold
    exact hother old hmem (heq.trans (List.mem_singleton.mp hnew))
  · refine List.pairwise_append.mpr ⟨h.ordered.sublist hsub, List.pairwise_singleton _ _, fun old hold new hnew => ?_⟩
    obtain rfl := List.mem_singleton.mp hnew
    exact Nat.lt_succ_of_le (h.stamped old (hsub.subset hold)).2
  · rcases List.mem_append.mp hmem with hold | hnew
    · exact ⟨(h.stamped found (hsub.subset hold)).1, Nat.le_succ_of_le (h.stamped found (hsub.subset hold)).2⟩
    · obtain rfl := List.mem_singleton.mp hnew
      exact ⟨Nat.succ_pos _, Nat.le_refl _⟩
  · rcases List.mem_append.mp hmem with hold | hnew
    · exact h.listed found (hsub.subset hold) (huntouched (hother found hold))
    · obtain rfl := List.mem_singleton.mp hnew
      exact hvalue.symm.trans (congrFun h.history key).symm
  · rw [List.map_append, List.map_singleton, List.mem_append, List.mem_singleton, not_or] at hnot
    have hne : other ≠ key := hnot.2
    cases overflows with
    | true =>
      rw [if_pos (Bool.or_true _)]
      exact .inr (by simp [hne])
    | false =>
      have hold : other ∉ data.pendingMutations.map Pending.key := by
        intro hmem
        obtain ⟨old, hold, rfl⟩ := List.mem_map.mp hmem
        refine hnot.1 (List.mem_map_of_mem ?_)
        rw [hkept, if_neg Bool.false_ne_true]
        exact List.mem_filter.mpr ⟨hold, by simpa using hne⟩
      have hunlisted := h.unlisted other (huntouched hne) hold
      simpa [Data.Agrees, Data.MayLack, Data.Expired, hne] using hunlisted

theorem endReplay (h : Tracked inFlight data) (happlied : ∀ pending ∈ data.pendingMutations, data.Applied pending)
    (hcleared : data.Cleared) : Tracked inFlight { data with pendingMutations := [], pendingClear := false } := by
  refine ⟨h.history, List.nodup_nil, List.Pairwise.nil, nofun, nofun, fun key huntouched _ => ?_⟩
  rw [if_neg Bool.false_ne_true]
  by_cases hkey : key ∈ data.pendingMutations.map Pending.key
  · obtain ⟨pending, hmem, rfl⟩ := List.mem_map.mp hkey
    have hvalue := h.listed pending hmem huntouched
    rcases happlied pending hmem with heq | ⟨hnone, entry, hset, hexpired⟩
    · exact .inl (heq.trans hvalue)
    · refine .inr ⟨hnone, .inr ⟨entry, ?_, hexpired⟩⟩
      rw [hset] at hvalue
      exact hvalue.symm
  · have hunlisted := h.unlisted key huntouched hkey
    split at hunlisted
    · rename_i hclear
      have hnone := hcleared hclear key hkey
      rcases hunlisted with hfallback | hdropped
      · exact .inl (hnone.trans hfallback.symm)
      · exact .inr ⟨hnone, .inl hdropped⟩
    · exact hunlisted

theorem settleReplay (h : Tracked inFlight data) (hkey : key ∈ data.pendingMutations.map Pending.key)
    (value : Option (TokenCacheEntry τ)) : Tracked inFlight { data with primary := update data.primary key value } := by
  refine ⟨h.history, h.keys, h.ordered, h.stamped, h.listed, fun other huntouched hother => ?_⟩
  have hunlisted := h.unlisted other huntouched hother
  have hne : other ≠ key := fun heq => hother (heq ▸ hkey)
  simp only [Data.Agrees, update_of_ne hne]
  exact hunlisted

theorem settleClear (h : Tracked inFlight data) (hclear : data.pendingClear = true) (primary : Contents τ) :
    Tracked inFlight { data with primary := primary } := by
  refine ⟨h.history, h.keys, h.ordered, h.stamped, h.listed, fun other huntouched hother => ?_⟩
  have hunlisted := h.unlisted other huntouched hother
  rw [hclear, if_pos rfl] at hunlisted
  rw [if_pos hclear]
  exact hunlisted

end Tracked

/-! ## Recoveries -/

/-- Whether a recovery is going to replay what is remembered now, be it with a clearing or without. -/
def RecoveryStage.hears (clears : Bool) : RecoveryStage τ → Bool
  | .replayed => false
  | .replaying .. | .stepped _ true => !clears
  | _ => true

namespace Data

variable {data : Data τ} {key : Text} {stage : RecoveryStage τ}

def AppliedBelow (data : Data τ) (stamp : Nat) : Prop := ∀ pending ∈ data.pendingMutations, pending.stamp < stamp → data.Applied pending

def Carries (data : Data τ) (operation mutation : PendingMutation τ) : Prop :=
  operation = mutation ∨ (operation = .delete ∧ ∃ entry, mutation = .set entry ∧ data.Expired entry)

def Replays (data : Data τ) : RecoveryStage τ → Prop
  | .clearing => data.pendingClear = true
  | .cleared ok => data.pendingClear = true ∧ (ok = true → ∀ key, data.primary key = none)
  | .replaying stamp key operation =>
    data.Cleared ∧ data.AppliedBelow stamp ∧ stamp ≤ data.stamps ∧ key ∈ data.pendingMutations.map Pending.key ∧
      (∀ pending ∈ data.pendingMutations, pending.key = key → stamp ≤ pending.stamp) ∧
      ∀ pending ∈ data.pendingMutations, pending.stamp = stamp → pending.key = key ∧ data.Carries operation pending.mutation
  | .stepped stamp ok => ok = true → data.Cleared ∧ data.AppliedBelow (stamp + 1) ∧ stamp ≤ data.stamps
  | .replayed => data.Settled
  | .probing | .failing | .resolved _ => True

omit [LE τ] in
theorem Settled.cleared (h : data.Settled) : data.Cleared := fun hclear => absurd (h.2.symm.trans hclear) Bool.false_ne_true

theorem Settled.appliedBelow (h : data.Settled) (stamp : Nat) : data.AppliedBelow stamp :=
  fun _ hmem => absurd (h.1 ▸ hmem) List.not_mem_nil

theorem Replays.withPrimary (h : data.Replays stage) (hsettled : data.Settled) (primary : Contents τ) :
    { data with primary := primary }.Replays stage := by
  have hsettled' : { data with primary := primary }.Settled := hsettled
  cases stage with
  | probing | failing | resolved => trivial
  | clearing | replayed => exact h
  | cleared ok => exact absurd (hsettled.2.symm.trans h.1) Bool.false_ne_true
  | replaying stamp key operation =>
    have hkey := h.2.2.2.1
    rw [hsettled.1] at hkey
    cases hkey
  | stepped stamp ok => exact fun hok => ⟨hsettled'.cleared, hsettled'.appliedBelow _, (h hok).2.2⟩

theorem Expired.readWallClock {entry : TokenCacheEntry τ} (h : data.Expired entry) (reading : τ) :
    { data with wallReadings := data.wallReadings ++ [reading] }.Expired entry := by
  obtain ⟨found, hmem, hle⟩ := h
  exact ⟨found, List.mem_append_left _ hmem, hle⟩

theorem Applied.readWallClock {pending : Pending τ} (h : data.Applied pending) (reading : τ) :
    { data with wallReadings := data.wallReadings ++ [reading] }.Applied pending :=
  h.imp_right fun ⟨hnone, entry, hset, hexpired⟩ => ⟨hnone, entry, hset, hexpired.readWallClock reading⟩

theorem AppliedBelow.readWallClock {stamp : Nat} (h : data.AppliedBelow stamp) (reading : τ) :
    { data with wallReadings := data.wallReadings ++ [reading] }.AppliedBelow stamp :=
  fun pending hmem hlt => (h pending hmem hlt).readWallClock reading

theorem Replays.readWallClock (h : data.Replays stage) (reading : τ) :
    { data with wallReadings := data.wallReadings ++ [reading] }.Replays stage := by
  cases stage with
  | probing | failing | resolved => trivial
  | clearing | replayed | cleared => exact h
  | replaying stamp key operation =>
    obtain ⟨hcleared, happlied, hstamp, hkey, hlater, hcarries⟩ := h
    refine ⟨hcleared, happlied.readWallClock reading, hstamp, hkey, hlater, fun pending hmem heq => ?_⟩
    obtain ⟨hfound, hcarry⟩ := hcarries pending hmem heq
    exact ⟨hfound, hcarry.imp_right fun ⟨hdelete, entry, hset, hexpired⟩ => ⟨hdelete, entry, hset, hexpired.readWallClock reading⟩⟩
  | stepped stamp ok =>
    intro hok
    obtain ⟨hcleared, happlied, hstamp⟩ := h hok
    exact ⟨hcleared, happlied.readWallClock reading, hstamp⟩

theorem Replays.settleReplay {stamp : Nat} {operation : PendingMutation τ} (h : data.Replays (.replaying stamp key operation))
    (outcome : Outcome) :
    { data with primary := if outcome.applied then update data.primary key operation.value else data.primary }.Replays
      (.stepped stamp (outcome = Outcome.ok)) := by
  intro hok
  have houtcome : outcome = .ok := of_decide_eq_true hok
  subst houtcome
  obtain ⟨hcleared, happlied, hstamp, hkey, hlater, hcarries⟩ := h
  rw [if_pos (show Outcome.ok.applied = true from rfl)]
  refine ⟨fun hclear other hother => ?_, fun pending hmem hlt => ?_, hstamp⟩
  · have hne : other ≠ key := fun heq => hother (heq ▸ hkey)
    exact (update_of_ne hne _ _).trans (hcleared hclear other hother)
  · rcases Nat.lt_or_eq_of_le (Nat.le_of_lt_succ hlt) with hbelow | heq
    · have hne : pending.key ≠ key := fun heq => absurd (hlater pending hmem heq) (Nat.not_le_of_lt hbelow)
      exact (happlied pending hmem hbelow).imp (update_of_ne hne _ _).trans fun ⟨hnone, hexpired⟩ =>
        ⟨(update_of_ne hne _ _).trans hnone, hexpired⟩
    · obtain ⟨hfound, hcarry⟩ := hcarries pending hmem heq
      rw [Applied, hfound]
      rcases hcarry with hsame | ⟨hdelete, hexpired⟩
      · exact .inl ((update_self key _ _).trans (congrArg PendingMutation.value hsame))
      · exact .inr ⟨(update_self key _ _).trans (congrArg PendingMutation.value hdelete), hexpired⟩

theorem Replays.rememberMutation (h : data.Replays stage) (pending : PendingMutation τ) {overflows : Bool}
    (dropped : Text → Bool) (acknowledged : List (Mutation τ))
    (hhears : stage.hears overflows = true) {kept : List (Pending τ)}
    (hkept : kept = if overflows then [] else data.pendingMutations.filter (·.key ≠ key)) :
    Replays { data with
      pendingClear := data.pendingClear || overflows
      pendingMutations := kept ++ [⟨data.stamps + 1, key, pending⟩]
      stamps := data.stamps + 1
      dropped := dropped
      acknowledged := acknowledged } stage := by
  have hkeys (hno : overflows = false) {other : Text} (hmem : other ∈ data.pendingMutations.map Pending.key) :
      other ∈ (kept ++ [(⟨data.stamps + 1, key, pending⟩ : Pending τ)]).map Pending.key := by
    rw [List.map_append, List.map_singleton, List.mem_append, List.mem_singleton]
    obtain ⟨old, hold, rfl⟩ := List.mem_map.mp hmem
    by_cases heq : old.key = key
    · exact .inr heq
    · rw [hkept, hno, if_neg Bool.false_ne_true]
      exact .inl (List.mem_map_of_mem (List.mem_filter.mpr ⟨hold, decide_eq_true heq⟩))
  have hmembers (hno : overflows = false) {found : Pending τ}
      (hmem : found ∈ kept ++ [(⟨data.stamps + 1, key, pending⟩ : Pending τ)]) :
      found ∈ data.pendingMutations ∨ found.stamp = data.stamps + 1 := by
    rcases List.mem_append.mp hmem with hold | hnew
    · rw [hkept, hno, if_neg Bool.false_ne_true] at hold
      exact .inl (List.mem_filter.mp hold).1
    · exact .inr (congrArg Pending.stamp (List.mem_singleton.mp hnew))
  have hclear (hno : overflows = false) (hcleared : data.Cleared) :
      (data.pendingClear || overflows) = true → ∀ other,
        other ∉ (kept ++ [(⟨data.stamps + 1, key, pending⟩ : Pending τ)]).map Pending.key → data.primary other = none := by
    intro htrue other hnot
    rw [hno, Bool.or_false] at htrue
    exact hcleared htrue other fun hmem => hnot (hkeys hno hmem)
  cases stage with
  | probing | failing | resolved => trivial
  | replayed => cases hhears
  | clearing => exact Bool.or_eq_true_iff.mpr (.inl h)
  | cleared ok => exact ⟨Bool.or_eq_true_iff.mpr (.inl h.1), h.2⟩
  | replaying stamp other operation =>
    have hno : overflows = false := Bool.not_eq_true' _ |>.mp hhears
    obtain ⟨hcleared, happlied, hstamp, hkey, hlater, hcarries⟩ := h
    refine ⟨hclear hno hcleared, fun found hmem hlt => ?_, Nat.le_succ_of_le hstamp, hkeys hno hkey, fun found hmem heq => ?_,
      fun found hmem heq => ?_⟩
    · rcases hmembers hno hmem with hold | hnew
      · exact happlied found hold hlt
      · omega
    · rcases hmembers hno hmem with hold | hnew
      · exact hlater found hold heq
      · omega
    · rcases hmembers hno hmem with hold | hnew
      · exact hcarries found hold heq
      · omega
  | stepped stamp ok =>
    rintro rfl
    have hno : overflows = false := Bool.not_eq_true' _ |>.mp hhears
    obtain ⟨hcleared, happlied, hstamp⟩ := h rfl
    refine ⟨hclear hno hcleared, fun found hmem hlt => ?_, Nat.le_succ_of_le hstamp⟩
    rcases hmembers hno hmem with hold | hnew
    · exact happlied found hold hlt
    · omega

theorem Replays.rememberClear (h : data.Replays stage) (acknowledged : List (Mutation τ)) (hhears : stage.hears true = true) :
    Replays { data with pendingClear := true, pendingMutations := [], acknowledged := acknowledged } stage := by
  cases stage with
  | probing | failing | resolved => trivial
  | replayed | replaying => cases hhears
  | clearing => rfl
  | cleared ok => exact ⟨rfl, h.2⟩
  | stepped stamp ok =>
    rintro rfl
    cases hhears

end Data

theorem Tracked.replay_next {inFlight : Option (Mutation τ)} {data : Data τ} (h : Tracked inFlight data) {stamp : Nat}
    (happlied : data.AppliedBelow (stamp + 1)) (hcleared : data.Cleared) {next : Pending τ}
    (hfind : data.pendingMutations.find? (stamp < ·.stamp) = some next) {operation : PendingMutation τ}
    (hcarries : data.Carries operation next.mutation) : data.Replays (.replaying next.stamp next.key operation) := by
  have hmem := List.mem_of_find?_eq_some hfind
  have hkey : ∀ pending ∈ data.pendingMutations, pending.key = next.key → pending = next :=
    fun pending hfound heq => List.inj_on_of_nodup_map h.keys hfound hmem heq
  have hstamp : ∀ pending ∈ data.pendingMutations, pending.stamp = next.stamp → pending = next := by
    have hstamps : (data.pendingMutations.map Pending.stamp).Nodup := List.pairwise_map.mpr (h.ordered.imp Nat.ne_of_lt)
    exact fun pending hfound heq => List.inj_on_of_nodup_map hstamps hfound hmem heq
  refine ⟨hcleared, fun pending hfound hlt => happlied pending hfound ?_, (h.stamped next hmem).2, List.mem_map_of_mem hmem,
    fun pending hfound heq => ?_, fun pending hfound heq => ?_⟩
  · obtain ⟨-, before, later, hsplit, hbefore⟩ := List.find?_eq_some_iff_append.mp hfind
    have hordered := h.ordered
    rw [hsplit] at hfound hordered
    have hlater := (List.pairwise_cons.mp (List.pairwise_append.mp hordered).2.1).1
    rcases List.mem_append.mp hfound with hold | hrest
    · simpa [Nat.lt_succ_iff] using hbefore pending hold
    · rcases List.mem_cons.mp hrest with rfl | hbehind
      · exact absurd hlt (Nat.lt_irrefl _)
      · exact absurd hlt (Nat.lt_asymm (hlater pending hbehind))
  · rw [hkey pending hfound heq]
  · obtain rfl := hstamp pending hfound heq
    exact ⟨rfl, hcarries⟩

/-- Whether remembering a mutation forgets what is remembered already. -/
def ResilientCache.clears (cache : ResilientCache τ) : Mutation τ → Bool
  | .set key _ | .delete key => cache.overflows key
  | .clear => true

/-! ## The invariant -/

/-- A call that uses the primary or is going to. -/
def Check.Trusting : Check → Prop
  | .owned usable | .answered usable => usable = true
  | .joined | .owning => False

def MutationStage.Trusting : MutationStage → Prop
  | .checking check => check.Trusting
  | .primary | .settled _ => True
  | .fallback | .applied => False

def ReadStage.Trusting : ReadStage τ → Prop
  | .checking check => check.Trusting
  | .primary => True
  | .settled _ | .fallback | .returned _ => False

def ReadStage.reply? : ReadStage τ → Option (Reply τ)
  | .settled reply => reply
  | .returned reply => some reply
  | _ => none

def Data.Allows (data : Data τ) (kind : ReadKind) (key : Text) (reply : Reply τ) : Prop :=
  reply = kind.reply (data.fallback key) ∨ (reply = kind.reply none ∧ data.MayLack key)

structure Data.Fits (data : Data τ) (read : Read τ) : Prop where
  trusting : read.stage.Trusting → data.Settled
  reply : ∀ reply, read.stage.reply? = some reply → data.Allows read.kind read.key reply

namespace ResilientCache

variable {cache : ResilientCache τ}

def inFlight (cache : ResilientCache τ) : Option (Mutation τ) :=
  match cache.running with
  | none | some (_, .fallback) => none
  | some (mutation, _) => some mutation

structure Inv (cache : ResilientCache τ) : Prop where
  tracked : Tracked cache.inFlight cache.data
  closed : cache.state = .closed → cache.data.Settled
  trusting : ∀ mutation stage, cache.running = some (mutation, stage) → stage.Trusting → cache.data.Settled
  effect : ∀ mutation, cache.running = some (mutation, .settled true) →
    ∀ key, mutation.touches key = true → cache.primary key = cache.fallback key
  replays : ∀ stage, cache.recoveryPromise = some stage → cache.data.Replays stage
  reads : ∀ id read, cache.reads id = some read → read.quiet = true →
    (cache.running = none ∧ cache.queue = []) ∧ cache.data.Fits read

omit [LE τ] in
theorem recordReadFailure_eq (cache : ResilientCache τ) (options : ResilientCacheOptions τ) (now : τ) :
    ∃ state count opened, cache.recordReadFailure options now =
      { cache with state := state, failureCount := count, circuitOpenedAt := opened } ∧
        (state = .closed → cache.state = .closed) := by
  rw [recordReadFailure]
  split
  · exact ⟨.open, _, _, rfl, nofun⟩
  · exact ⟨cache.state, _, _, rfl, id⟩

omit [LE τ] in
theorem recordMutationFailure_remember (options : ResilientCacheOptions τ) (now : τ) (mutation : Mutation τ) :
    (cache.remember mutation).recordMutationFailure options now = (cache.recordMutationFailure options now).remember mutation := by
  cases mutation <;> rfl

omit [LE τ] in
theorem recordReadSuccess_eq (cache : ResilientCache τ) :
    cache.recordReadSuccess = { cache with failureCount := if cache.state ≠ .closed then cache.failureCount else 0 } := by
  rw [recordReadSuccess]
  split <;> rfl

omit [LE τ] in
theorem recordCompletion_settled (hsettled : cache.data.Settled) (mutation : Mutation τ) :
    ∃ count, cache.recordCompletion mutation =
      { cache with failureCount := count, pendingMutations := [], pendingClear := false } := by
  obtain ⟨hpending, hclear⟩ : cache.pendingMutations = [] ∧ cache.pendingClear = false := hsettled
  cases mutation with
  | set key _ | delete key =>
    rw [recordCompletion, recordMutationSuccess, recordReadSuccess_eq, hpending, ← hclear]
    exact ⟨_, rfl⟩
  | clear =>
    rw [recordCompletion, recordReadSuccess_eq]
    exact ⟨_, rfl⟩

namespace Inv

theorem initial : Inv (ResilientCache.initial (τ := τ)) where
  tracked := Tracked.empty
  closed _ := ⟨rfl, rfl⟩
  trusting _ _ := nofun
  effect _ := nofun
  replays _ := nofun
  reads _ _ := nofun

theorem counters (h : Inv cache) (count : Nat) (opened : Option τ) {state : CircuitState}
    (hstate : state = .closed → cache.data.Settled) :
    Inv { cache with state := state, failureCount := count, circuitOpenedAt := opened } :=
  ⟨h.tracked, hstate, h.trusting, h.effect, h.replays, h.reads⟩

theorem setRecovery (h : Inv cache) {recovery : Option (RecoveryStage τ)}
    (hstage : ∀ stage, recovery = some stage → cache.data.Replays stage) : Inv { cache with recoveryPromise := recovery } :=
  ⟨h.tracked, h.closed, h.trusting, h.effect, hstage, h.reads⟩

theorem setRead (h : Inv cache) (id calls : Nat) {read : Read τ}
    (hfits : read.quiet = true → (cache.running = none ∧ cache.queue = []) ∧ cache.data.Fits read) :
    Inv { cache with reads := update cache.reads id (some read), calls := calls } := by
  refine ⟨h.tracked, h.closed, h.trusting, h.effect, h.replays, fun other found hfound hquiet => ?_⟩
  by_cases heq : other = id
  · obtain rfl : read = found := Option.some.inj (by rw [← hfound, heq]; exact (update_self id (some read) cache.reads).symm)
    exact hfits hquiet
  · exact h.reads other found (by rw [← hfound]; exact (update_of_ne heq (some read) cache.reads).symm) hquiet

variable {mutation : Mutation τ}

theorem setStage (h : Inv cache) {stage next : MutationStage}
    (hrunning : cache.running = some (mutation, stage)) (hstage : stage ≠ .fallback) (hnext : next ≠ .fallback)
    (htrusting : next.Trusting → cache.data.Settled) (heffect : next ≠ .settled true) :
    Inv { cache with running := some (mutation, next) } := by
  have hin : cache.inFlight = some mutation := by
    rw [inFlight, hrunning]
    cases stage <;> first | rfl | exact absurd rfl hstage
  have hout : inFlight { cache with running := some (mutation, next) } = some mutation := by
    cases next <;> first | rfl | exact absurd rfl hnext
  refine ⟨?_, h.closed, fun other found hfound htrust => ?_, fun other hfound => ?_, h.replays, fun id read hread hquiet => ?_⟩
  · rw [hout, ← hin]
    exact h.tracked
  · obtain rfl : next = found := congrArg Prod.snd (Option.some.inj hfound)
    exact htrusting htrust
  · exact absurd (congrArg Prod.snd (Option.some.inj hfound)) heffect
  · have hidle := (h.reads id read hread hquiet).1.1
    rw [hrunning] at hidle
    cases hidle

theorem readWallClock (h : Inv cache) (reading : τ) : Inv { cache with wallReadings := cache.wallReadings ++ [reading] } := by
  refine ⟨h.tracked.readWallClock reading, h.closed, h.trusting, h.effect,
    fun stage hstage => (h.replays stage hstage).readWallClock reading, fun id read hread hquiet => ?_⟩
  obtain ⟨hidle, hfits⟩ := h.reads id read hread hquiet
  refine ⟨hidle, hfits.trusting, fun reply hreply => (hfits.reply reply hreply).imp_right fun ⟨heq, hlack⟩ => ⟨heq, ?_⟩⟩
  exact hlack.imp_right fun ⟨entry, hentry, hexpired⟩ => ⟨entry, hentry, Data.Expired.readWallClock hexpired reading⟩

theorem begin (h : Inv cache) {head : Mutation τ} {queue : List (Mutation τ)} (hrunning : cache.running = none)
    (hqueue : cache.queue = head :: queue) : Inv { cache with queue := queue, running := some (mutation, .fallback) } := by
  have hin : cache.inFlight = none := by rw [inFlight, hrunning]
  refine ⟨?_, h.closed, fun other stage hfound htrust => ?_, fun other hfound => ?_, h.replays, fun id read hread hquiet => ?_⟩
  · have htracked := h.tracked
    rw [hin] at htracked
    exact htracked
  · obtain rfl : MutationStage.fallback = stage := congrArg Prod.snd (Option.some.inj hfound)
    cases htrust
  · cases hfound
  · have hempty := (h.reads id read hread hquiet).1.2
    rw [hqueue] at hempty
    cases hempty

theorem settleFallback (h : Inv cache) (hrunning : cache.running = some (mutation, .fallback)) :
    Inv { cache with
      fallback := mutation.apply cache.fallback
      dropped := fun key => if mutation.touches key then false else cache.dropped key
      running := some (mutation, .applied) } := by
  have htracked := h.tracked
  rw [inFlight, hrunning] at htracked
  refine ⟨htracked.settleFallback mutation, h.closed, fun other stage hfound htrust => ?_, fun other hfound => ?_,
    fun stage hstage => ?_, fun id read hread hquiet => ?_⟩
  · obtain rfl : MutationStage.applied = stage := congrArg Prod.snd (Option.some.inj hfound)
    cases htrust
  · cases hfound
  · have hreplays := h.replays stage hstage
    cases stage <;> exact hreplays
  · have hidle := (h.reads id read hread hquiet).1.1
    rw [hrunning] at hidle
    cases hidle

theorem settlePrimary (h : Inv cache) (hrunning : cache.running = some (mutation, .primary))
    (outcome : Outcome) :
    Inv { cache with
      primary := if outcome.applied then mutation.apply cache.primary else cache.primary
      running := some (mutation, .settled (outcome = .ok)) } := by
  have htracked := h.tracked
  rw [inFlight, hrunning] at htracked
  have hsettled := h.trusting mutation .primary hrunning trivial
  refine ⟨?_, h.closed, fun other stage _ _ => hsettled, fun other hfound key htouches => ?_,
    fun stage hstage => (h.replays stage hstage).withPrimary hsettled _, fun id read hread hquiet => ?_⟩
  · cases outcome.applied with
    | true => exact htracked.settlePrimary
    | false => exact htracked
  · have hsame := Option.some.inj hfound
    obtain rfl : mutation = other := congrArg Prod.fst hsame
    obtain rfl : outcome = .ok := by simpa using congrArg Prod.snd hsame
    exact (Mutation.apply_touched htouches cache.primary _).trans (congrFun htracked.history key).symm
  · have hidle := (h.reads id read hread hquiet).1.1
    rw [hrunning] at hidle
    cases hidle

theorem withPrimary (h : Inv cache) {primary : Contents τ} {recovery : Option (RecoveryStage τ)}
    (htracked : Tracked cache.inFlight { cache.data with primary := primary }) (hunsettled : ¬ cache.data.Settled)
    (hstage : ∀ stage, recovery = some stage → { cache.data with primary := primary }.Replays stage) :
    Inv { cache with primary := primary, recoveryPromise := recovery } := by
  refine ⟨htracked, h.closed, h.trusting, fun mutation hrunning => ?_, hstage, fun id read hread hquiet => ?_⟩
  · exact absurd (h.trusting mutation _ hrunning trivial) hunsettled
  · obtain ⟨hidle, hfits⟩ := h.reads id read hread hquiet
    exact ⟨hidle, hfits.trusting, hfits.reply⟩

theorem endReplay (h : Inv cache) (happlied : ∀ pending ∈ cache.pendingMutations, cache.data.Applied pending)
    (hcleared : cache.data.Cleared) :
    Inv { cache with pendingClear := false, pendingMutations := [], recoveryPromise := some .replayed } := by
  have hsettled : (ResilientCache.data { cache with
      pendingClear := false, pendingMutations := [], recoveryPromise := some .replayed }).Settled := ⟨rfl, rfl⟩
  refine ⟨h.tracked.endReplay happlied hcleared, fun _ => hsettled, fun _ _ _ _ => hsettled, h.effect, ?_,
    fun id read hread hquiet => ?_⟩
  · rintro _ ⟨⟩
    exact hsettled
  · obtain ⟨hidle, hfits⟩ := h.reads id read hread hquiet
    exact ⟨hidle, fun _ => hsettled, hfits.reply⟩

theorem continueReplay [DecidableLE τ] (h : Inv cache) {stamp : Nat} (happlied : cache.data.AppliedBelow (stamp + 1))
    (hcleared : cache.data.Cleared) (wallNow : τ) : Inv (cache.continueReplay stamp wallNow) := by
  rw [ResilientCache.continueReplay]
  split
  · rename_i hfind
    refine h.endReplay (fun pending hmem => happlied pending hmem ?_) hcleared
    have hle := List.find?_eq_none.mp hfind pending hmem
    simpa [Nat.lt_succ_iff] using hle
  · rename_i next key entry hfind
    have hread := h.readWallClock wallNow
    refine hread.setRecovery ?_
    rintro _ ⟨⟩
    refine hread.tracked.replay_next (happlied.readWallClock wallNow) hcleared hfind ?_
    split
    · exact .inr ⟨rfl, entry, rfl, wallNow, List.mem_append_right _ (List.mem_singleton_self _), ‹_›⟩
    · exact .inl rfl
  · rename_i next key hfind
    refine h.setRecovery ?_
    rintro _ ⟨⟩
    exact h.tracked.replay_next happlied hcleared hfind (.inl rfl)

theorem mapChecks (h : Inv cache) {f : Check → Check} (hf : ∀ check, (f check).Trusting → check.Trusting ∨ cache.data.Settled) :
    Inv (cache.mapChecks f) := by
  have hstage (stage : MutationStage) : (stage.mapCheck f).Trusting → stage.Trusting ∨ cache.data.Settled := by
    cases stage with
    | checking check => exact hf check
    | fallback | applied | primary | settled => exact .inl
  have hin : (cache.mapChecks f).inFlight = cache.inFlight := by
    rw [inFlight, inFlight, ResilientCache.mapChecks]
    rcases cache.running with _ | ⟨mutation, stage⟩
    · rfl
    · cases stage <;> rfl
  refine ⟨?_, h.closed, fun mutation stage hrunning htrust => ?_, fun mutation hrunning => ?_, h.replays,
    fun call read hread hquiet => ?_⟩
  · rw [hin]
    exact h.tracked
  · obtain ⟨⟨other, old⟩, hold, hsame⟩ := Option.map_eq_some_iff.mp hrunning
    cases hsame
    exact (hstage old htrust).elim (h.trusting _ old hold) id
  · obtain ⟨⟨other, old⟩, hold, hsame⟩ := Option.map_eq_some_iff.mp hrunning
    obtain ⟨rfl, hsettled⟩ := Prod.mk.inj hsame
    cases old with
    | settled ok =>
      obtain rfl : ok = true := MutationStage.settled.inj hsettled
      exact h.effect other hold
    | checking | fallback | applied | primary => cases hsettled
  · obtain ⟨old, hold, rfl⟩ := Option.map_eq_some_iff.mp hread
    obtain ⟨⟨hrunning, hqueue⟩, hfits⟩ := h.reads call old hold hquiet
    refine ⟨⟨Option.map_eq_none_iff.mpr hrunning, hqueue⟩, fun htrust => ?_, fun reply hreply => hfits.reply reply ?_⟩
    · rcases old with ⟨kind, key, stage, quiet⟩
      cases stage with
      | checking check => exact (hf check htrust).elim hfits.trusting id
      | primary | settled | fallback | returned => exact hfits.trusting htrust
    · rcases old with ⟨kind, key, stage, quiet⟩
      cases stage <;> exact hreply

theorem resolveRecovery (h : Inv cache) {usable : Bool} (husable : usable = true → cache.data.Settled) :
    Inv (cache.resolveRecovery usable) := by
  have hmapped : Inv (cache.mapChecks (Check.resolve usable)) := h.mapChecks fun check htrust => by
    cases check with
    | joined | owning => exact .inr (husable htrust)
    | owned | answered => exact .inl htrust
  refine hmapped.setRecovery ?_
  rintro _ ⟨⟩
  trivial

theorem failRecovery (h : Inv cache) (options : ResilientCacheOptions τ) (now : τ) : Inv (cache.failRecovery options now) := by
  have hopened : Inv { cache with
      state := .open, failureCount := max cache.failureCount options.failureThreshold, circuitOpenedAt := some now } :=
    h.counters _ _ nofun
  exact hopened.resolveRecovery nofun

theorem release (h : Inv cache) : Inv { cache.mapChecks Check.release with recoveryPromise := none } := by
  refine (h.mapChecks fun check htrust => .inl ?_).setRecovery nofun
  cases check <;> exact htrust

theorem doneWith (h : Inv cache) (hin : cache.inFlight = some mutation) {cache' : ResilientCache τ}
    (hrunning : cache'.running = none) (htracked : Tracked none cache'.data)
    (hclosed : cache'.state = .closed → cache'.data.Settled)
    (hreplays : ∀ stage, cache'.recoveryPromise = some stage → cache'.data.Replays stage) (hreads : cache'.reads = cache.reads) :
    Inv cache' := by
  have hbusy : ¬ (cache.running = none ∧ cache.queue = []) := by
    rintro ⟨hnone, -⟩
    rw [inFlight, hnone] at hin
    cases hin
  refine ⟨?_, hclosed, fun other stage hfound => ?_, fun other hfound => ?_, hreplays, fun id read hread hquiet => ?_⟩
  · rwa [inFlight, hrunning]
  · rw [hrunning] at hfound
    cases hfound
  · rw [hrunning] at hfound
    cases hfound
  · rw [hreads] at hread
    exact absurd (h.reads id read hread hquiet).1 hbusy

theorem rememberMutation (h : Inv cache) (hin : cache.inFlight = some mutation)
    (hclosed : cache.state ≠ .closed) {key : Text} {pending : PendingMutation τ}
    (htouches : ∀ other, mutation.touches other = true → other = key)
    (hvalue : mutation.apply (contents cache.acknowledged) key = pending.value)
    (hhears : cache.recoveryPromise.all (·.hears (cache.overflows key)) = true) :
    Inv ((cache.rememberMutation key pending).done mutation) := by
  have htracked := h.tracked
  rw [hin] at htracked
  refine h.doneWith hin rfl (htracked.rememberMutation htouches hvalue _ rfl) (fun heq => absurd heq hclosed) (fun stage hstage => ?_) rfl
  refine (h.replays stage hstage).rememberMutation pending _ _ ?_ rfl
  rw [show cache.recoveryPromise = some stage from hstage] at hhears
  exact hhears

theorem remember (h : Inv cache) (hin : cache.inFlight = some mutation) (hclosed : cache.state ≠ .closed)
    (hhears : cache.recoveryPromise.all (·.hears (cache.clears mutation)) = true) :
    Inv ((cache.remember mutation).done mutation) := by
  cases mutation with
  | set key entry =>
    exact h.rememberMutation hin hclosed (fun other htouches => (of_decide_eq_true htouches).symm) (update_self ..) hhears
  | delete key =>
    exact h.rememberMutation hin hclosed (fun other htouches => (of_decide_eq_true htouches).symm) (update_self ..) hhears
  | clear =>
    have htracked := h.tracked
    rw [hin] at htracked
    refine h.doneWith hin rfl htracked.rememberClear (fun heq => absurd heq hclosed) (fun stage hstage => ?_) rfl
    refine (h.replays stage hstage).rememberClear _ ?_
    rw [show cache.recoveryPromise = some stage from hstage] at hhears
    exact hhears

theorem complete (h : Inv cache) (hrunning : cache.running = some (mutation, .settled true)) :
    Inv ((cache.recordCompletion mutation).done mutation) := by
  have hin : cache.inFlight = some mutation := by rw [inFlight, hrunning]
  have hsettled := h.trusting mutation _ hrunning trivial
  have htracked := h.tracked
  rw [hin] at htracked
  obtain ⟨count, heq⟩ := recordCompletion_settled hsettled mutation
  rw [heq]
  refine h.doneWith hin rfl (htracked.complete hsettled (h.effect mutation hrunning)) (fun _ => ⟨rfl, rfl⟩) (fun stage hstage => ?_)
    rfl
  have hreplays := h.replays stage hstage
  have hdata : cache.data = { cache.data with pendingMutations := [], pendingClear := false } := by
    rw [← hsettled.1, ← hsettled.2]
  rw [hdata] at hreplays
  cases stage <;> exact hreplays

end Inv

/-! ## Runs -/

section Runs

variable [Sub τ] [LT τ] [DecidableLT τ] [DecidableLE τ] {options : ResilientCacheOptions τ}

/-- Something is left to replay, and a call that asks for the primary would be told to use it. -/
def misleads (cache : ResilientCache τ) : Bool :=
  match cache.recoveryPromise with
  | some (.resolved true) => cache.state ≠ .closed && (cache.pendingClear || !cache.pendingMutations.isEmpty)
  | _ => false

/-- Nothing is remembered that no recovery is going to replay. -/
def safe (cache : ResilientCache τ) : Action τ → Bool
  | .resume =>
    match cache.running with
    | some (mutation, .checking (.answered false)) =>
      cache.state ≠ .closed && cache.recoveryPromise.all (·.hears (cache.clears mutation))
    | _ => true
  | .complete _ =>
    match cache.running with
    | some (mutation, .settled false) => cache.recoveryPromise.all (·.hears (cache.clears mutation))
    | _ => true
  | .check _ | .read .. => !cache.misleads
  | _ => true

omit [DecidableLE τ] in
theorem canUsePrimary_cases (h : Inv cache) (options : ResilientCacheOptions τ) (hsafe : cache.misleads = false)
    (now : τ) :
    ∃ check state recovery, cache.canUsePrimary options now = (check, { cache with state := state, recoveryPromise := recovery }) ∧
      (state = .closed → cache.state = .closed) ∧ (recovery = cache.recoveryPromise ∨ recovery = some .probing) ∧
      (check.Trusting → cache.data.Settled) := by
  rw [canUsePrimary]
  by_cases hclosed : cache.state = .closed
  · rw [if_pos hclosed]
    exact ⟨_, cache.state, cache.recoveryPromise, rfl, id, .inl rfl, fun _ => h.closed hclosed⟩
  · rw [if_neg hclosed]
    split
    · rename_i usable hrecovery
      refine ⟨_, cache.state, cache.recoveryPromise, rfl, id, .inl rfl, fun husable => ?_⟩
      obtain rfl : usable = true := husable
      rw [misleads, hrecovery] at hsafe
      exact (by simpa [hclosed] using hsafe : cache.pendingClear = false ∧ cache.pendingMutations = []).symm
    · exact ⟨_, cache.state, cache.recoveryPromise, rfl, id, .inl rfl, nofun⟩
    · split
      · exact ⟨_, cache.state, cache.recoveryPromise, rfl, id, .inl rfl, nofun⟩
      · exact ⟨_, .halfOpen, some .probing, rfl, nofun, .inr rfl, nofun⟩

omit [Sub τ] [LT τ] [DecidableLT τ] [DecidableLE τ] in
theorem Inv.appliedBelow_one (h : Inv cache) : cache.data.AppliedBelow 1 :=
  fun pending hmem hlt => absurd (h.tracked.stamped pending hmem).1 (Nat.not_lt_of_le (Nat.le_of_lt_succ hlt))

omit [Sub τ] [LT τ] [DecidableLT τ] [DecidableLE τ] in
theorem Inv.withChecked (h : Inv cache) {state : CircuitState} {recovery : Option (RecoveryStage τ)}
    (hstate : state = .closed → cache.state = .closed) (hrecovery : recovery = cache.recoveryPromise ∨ recovery = some .probing) :
    Inv { cache with state := state, recoveryPromise := recovery } := by
  have hcounted : Inv { cache with state := state } := h.counters _ _ fun heq => h.closed (hstate heq)
  refine hcounted.setRecovery fun stage hstage => ?_
  rcases hrecovery with rfl | rfl
  · exact h.replays stage hstage
  · cases hstage
    trivial

theorem Inv.step {action : Action τ} {cache' : ResilientCache τ} (h : Inv cache) (hsafe : cache.safe action = true)
    (hstep : cache.step options action = some cache') : Inv cache' := by
  cases action with
  | enqueue mutation =>
    obtain rfl := Option.some.inj hstep
    rw [enqueue]
    split
    · exact h
    · refine ⟨h.tracked, h.closed, h.trusting, h.effect, h.replays, fun id read hread hquiet => ?_⟩
      obtain ⟨old, -, rfl⟩ := Option.map_eq_some_iff.mp hread
      cases hquiet
  | begin wallNow =>
    rw [ResilientCache.step, ResilientCache.begin] at hstep
    split at hstep
    · obtain rfl := Option.some.inj hstep
      rename_i hrunning hqueue
      exact (h.readWallClock wallNow).begin hrunning hqueue
    · obtain rfl := Option.some.inj hstep
      rename_i hrunning hqueue
      exact h.begin hrunning hqueue
    · cases hstep
  | settleFallback =>
    rw [ResilientCache.step] at hstep
    split at hstep
    · obtain rfl := Option.some.inj hstep
      exact h.settleFallback ‹_›
    · cases hstep
  | check now =>
    have hmisleads : cache.misleads = false := Bool.not_eq_true' _ |>.mp hsafe
    obtain ⟨check, state, recovery, hcheck, hstate, hrecovery, htrust⟩ := canUsePrimary_cases h options hmisleads now
    rw [ResilientCache.step] at hstep
    split at hstep
    · rename_i mutation hrunning
      rw [hcheck] at hstep
      obtain rfl := Option.some.inj hstep
      exact (h.withChecked hstate hrecovery).setStage hrunning nofun nofun htrust nofun
    · cases hstep
  | resume =>
    rw [ResilientCache.step] at hstep
    rw [safe] at hsafe
    split at hstep
    · rename_i mutation hrunning
      obtain rfl := Option.some.inj hstep
      exact h.setStage hrunning nofun nofun (fun _ => h.trusting mutation _ hrunning rfl) nofun
    · rename_i mutation hrunning
      obtain rfl := Option.some.inj hstep
      simp only [hrunning, Bool.and_eq_true] at hsafe
      exact h.remember (by rw [inFlight, hrunning]) (of_decide_eq_true hsafe.1) hsafe.2
    · cases hstep
  | settlePrimary outcome =>
    rw [ResilientCache.step] at hstep
    split at hstep
    · obtain rfl := Option.some.inj hstep
      exact h.settlePrimary ‹_› outcome
    · cases hstep
  | complete now =>
    rw [ResilientCache.step] at hstep
    rw [safe] at hsafe
    split at hstep
    · obtain rfl := Option.some.inj hstep
      exact h.complete ‹_›
    · rename_i mutation hrunning
      obtain rfl := Option.some.inj hstep
      simp only [hrunning] at hsafe
      have hcounted : Inv (cache.recordMutationFailure options now) := h.counters _ _ nofun
      rw [recordMutationFailure_remember]
      exact hcounted.remember (by rw [inFlight, recordMutationFailure, openCircuit, hrunning]) nofun hsafe
    · cases hstep
  | read kind key now =>
    have hmisleads : cache.misleads = false := Bool.not_eq_true' _ |>.mp hsafe
    obtain ⟨check, state, recovery, hcheck, hstate, hrecovery, htrust⟩ := canUsePrimary_cases h options hmisleads now
    rw [ResilientCache.step, hcheck] at hstep
    obtain rfl := Option.some.inj hstep
    refine (h.withChecked hstate hrecovery).setRead cache.calls (cache.calls + 1) fun hquiet => ⟨?_, htrust, nofun⟩
    exact (of_decide_eq_true hquiet).symm
  | resumeRead id =>
    rw [ResilientCache.step] at hstep
    split at hstep
    · rename_i kind key quiet hread
      obtain rfl := Option.some.inj hstep
      refine h.setRead id cache.calls fun hquiet => ?_
      obtain ⟨hidle, hfits⟩ := h.reads id _ hread hquiet
      exact ⟨hidle, fun _ => hfits.trusting rfl, nofun⟩
    · rename_i kind key quiet hread
      obtain rfl := Option.some.inj hstep
      exact h.setRead id cache.calls fun hquiet => ⟨(h.reads id _ hread hquiet).1, nofun, nofun⟩
    · cases hstep
  | settleRead id ok =>
    rw [ResilientCache.step] at hstep
    split at hstep
    · rename_i kind key quiet hread
      obtain rfl := Option.some.inj hstep
      refine h.setRead id cache.calls fun hquiet => ?_
      obtain ⟨hidle, hfits⟩ := h.reads id _ hread hquiet
      refine ⟨hidle, nofun, fun reply hreply => ?_⟩
      cases ok with
      | false => cases hreply
      | true =>
        cases hreply
        have hagrees : cache.data.Agrees key := h.tracked.agrees (hfits.trusting trivial) (by
          rw [inFlight, hidle.1]
          exact nofun)
        exact hagrees.imp (congrArg kind.reply) fun ⟨hnone, hlack⟩ => ⟨congrArg kind.reply hnone, hlack⟩
    · cases hstep
  | completeRead id now =>
    rw [ResilientCache.step] at hstep
    split at hstep
    · rename_i kind key reply quiet hread
      obtain rfl := Option.some.inj hstep
      rw [recordReadSuccess_eq]
      have hcounted : Inv { cache with failureCount := if cache.state ≠ .closed then cache.failureCount else 0 } :=
        h.counters _ _ h.closed
      refine hcounted.setRead id cache.calls fun hquiet => ?_
      obtain ⟨hidle, hfits⟩ := h.reads id _ hread hquiet
      exact ⟨hidle, nofun, hfits.reply⟩
    · rename_i kind key quiet hread
      obtain rfl := Option.some.inj hstep
      obtain ⟨state, count, opened, heq, hstate⟩ := cache.recordReadFailure_eq options now
      rw [heq]
      have hcounted : Inv { cache with state := state, failureCount := count, circuitOpenedAt := opened } :=
        h.counters _ _ fun hclosed => h.closed (hstate hclosed)
      exact hcounted.setRead id cache.calls fun hquiet => ⟨(h.reads id _ hread hquiet).1, nofun, nofun⟩
    · cases hstep
  | settleReadFallback id =>
    rw [ResilientCache.step] at hstep
    split at hstep
    · rename_i kind key quiet hread
      obtain rfl := Option.some.inj hstep
      refine h.setRead id cache.calls fun hquiet => ⟨(h.reads id _ hread hquiet).1, nofun, ?_⟩
      rintro _ ⟨⟩
      exact .inl rfl
    · cases hstep
  | probe ok now wallNow =>
    rw [ResilientCache.step] at hstep
    split at hstep
    · obtain rfl := Option.some.inj hstep
      split
      · exact h.failRecovery options now
      · split
        · rename_i hclear
          refine h.setRecovery ?_
          rintro _ ⟨⟩
          exact hclear
        · rename_i hclear
          exact h.continueReplay h.appliedBelow_one (fun hset => absurd hset hclear) wallNow
    · cases hstep
  | settleClear outcome =>
    rw [ResilientCache.step] at hstep
    split at hstep
    · rename_i hrecovery
      obtain rfl := Option.some.inj hstep
      have hclear : cache.pendingClear = true := h.replays _ hrecovery
      refine h.withPrimary (h.tracked.settleClear hclear _) (fun hsettled => ?_) ?_
      · exact absurd (hsettled.2.symm.trans hclear) Bool.false_ne_true
      · rintro _ ⟨⟩
        refine ⟨hclear, fun hok key => ?_⟩
        obtain rfl : outcome = .ok := of_decide_eq_true hok
        rfl
    · cases hstep
  | resumeClear wallNow =>
    rw [ResilientCache.step] at hstep
    split at hstep
    · rename_i hrecovery
      obtain rfl := Option.some.inj hstep
      obtain ⟨-, hnone⟩ := h.replays _ hrecovery
      exact h.continueReplay h.appliedBelow_one (fun _ key _ => hnone rfl key) wallNow
    · obtain rfl := Option.some.inj hstep
      refine h.setRecovery ?_
      rintro _ ⟨⟩
      trivial
    · cases hstep
  | settleReplay outcome =>
    rw [ResilientCache.step] at hstep
    split at hstep
    · rename_i stamp key operation hrecovery
      obtain rfl := Option.some.inj hstep
      have hreplays := h.replays _ hrecovery
      have hkey := hreplays.2.2.2.1
      refine h.withPrimary ?_ (fun hsettled => ?_) ?_
      · cases outcome.applied with
        | true => exact h.tracked.settleReplay hkey _
        | false => exact h.tracked
      · rw [hsettled.1] at hkey
        cases hkey
      · rintro _ ⟨⟩
        exact hreplays.settleReplay outcome
    · cases hstep
  | resumeReplay wallNow =>
    rw [ResilientCache.step] at hstep
    split at hstep
    · rename_i stamp hrecovery
      obtain rfl := Option.some.inj hstep
      obtain ⟨hcleared, happlied, -⟩ := h.replays _ hrecovery rfl
      exact h.continueReplay happlied hcleared wallNow
    · obtain rfl := Option.some.inj hstep
      refine h.setRecovery ?_
      rintro _ ⟨⟩
      trivial
    · cases hstep
  | finish now =>
    rw [ResilientCache.step] at hstep
    split at hstep
    · rename_i hrecovery
      obtain rfl := Option.some.inj hstep
      have hsettled : cache.data.Settled := h.replays _ hrecovery
      have hclosed : Inv { cache with state := .closed, failureCount := 0, circuitOpenedAt := none } :=
        h.counters _ _ fun _ => hsettled
      exact hclosed.resolveRecovery fun _ => hsettled
    · obtain rfl := Option.some.inj hstep
      exact h.failRecovery options now
    · cases hstep
  | release =>
    rw [ResilientCache.step] at hstep
    split at hstep
    · obtain rfl := Option.some.inj hstep
      exact h.release
    · cases hstep

def runSafe (options : ResilientCacheOptions τ) (cache : ResilientCache τ) : List (Action τ) → Bool
  | [] => true
  | action :: actions => cache.safe action && (cache.step options action).all fun next => next.runSafe options actions

theorem Inv.steps {actions : List (Action τ)} {cache' : ResilientCache τ} (h : Inv cache)
    (hsafe : cache.runSafe options actions = true) (hrun : actions.foldlM (fun cache => cache.step options) cache = some cache') : Inv cache' := by
  induction actions generalizing cache with
  | nil =>
    cases hrun
    exact h
  | cons action actions ih =>
    rw [List.foldlM_cons] at hrun
    obtain ⟨middle, hstep, hrest⟩ := Option.bind_eq_some_iff.mp hrun
    rw [runSafe, hstep, Option.all_some, Bool.and_eq_true] at hsafe
    exact ih (h.step hsafe.1 hstep) hsafe.2 hrest

end Runs

def Excuses (cache : ResilientCache τ) (key : Text) : Prop :=
  cache.dropped key = true ∨
    ∃ entry, contents cache.acknowledged key = some entry ∧ ∃ reading ∈ cache.wallReadings, entry.expiresAt ≤ reading

end ResilientCache

section

variable [Sub τ] [LT τ] [DecidableLT τ] [DecidableLE τ]

def run (options : ResilientCacheOptions τ) (actions : List (Action τ)) : Option (ResilientCache τ) :=
  actions.foldlM (fun cache => cache.step options) ResilientCache.initial

/-- Where every step is safe, a closed circuit with no mutation under way has on the
primary what was acknowledged, and a read that no mutation meets answers so. -/
theorem run_faithful {options : ResilientCacheOptions τ} {actions : List (Action τ)} {cache : ResilientCache τ}
    (hrun : run options actions = some cache) (hsafe : ResilientCache.initial.runSafe options actions = true) :
    (cache.state = .closed → cache.queue = [] → cache.running = none → ∀ key,
      cache.primary key = contents cache.acknowledged key ∨ (cache.primary key = none ∧ cache.Excuses key)) ∧
    ∀ read kind key reply, cache.reads read = some ⟨kind, key, .returned reply, true⟩ →
      reply = kind.reply (contents cache.acknowledged key) ∨ (reply = kind.reply none ∧ cache.Excuses key) := by
  have hinv := ResilientCache.Inv.initial.steps hsafe hrun
  have hhistory (hidle : cache.running = none) : cache.fallback = contents cache.acknowledged := by
    have htracked := hinv.tracked
    rw [ResilientCache.inFlight, hidle] at htracked
    exact htracked.history
  have hexcuses (hidle : cache.running = none) {key : Text} (hlack : cache.data.MayLack key) : cache.Excuses key := by
    rw [ResilientCache.Excuses, ← hhistory hidle]
    exact hlack
  refine ⟨fun hclosed _ hidle key => ?_, fun read kind key reply hread => ?_⟩
  · have hagrees : cache.data.Agrees key := hinv.tracked.agrees (hinv.closed hclosed) (by
      rw [ResilientCache.inFlight, hidle]
      exact nofun)
    rw [← hhistory hidle]
    exact hagrees.imp_right fun ⟨hnone, hlack⟩ => ⟨hnone, hexcuses hidle hlack⟩
  · obtain ⟨⟨hidle, -⟩, hfits⟩ := hinv.reads read _ hread rfl
    rw [← hhistory hidle]
    exact (hfits.reply reply rfl).imp_right fun ⟨hnone, hlack⟩ => ⟨hnone, hexcuses hidle hlack⟩

end

/-! ## An outage, and a deletion that fails behind a replay -/

def options : ResilientCacheOptions Nat := ⟨3, 5⟩

def entry : TokenCacheEntry Nat := ⟨.of "t", 100, .preview, none⟩

def applies (mutation : Mutation Nat) : List (Action Nat) :=
  [.enqueue mutation, .begin 0, .settleFallback, .check 0, .resume, .settlePrimary .ok, .complete 0]

def failsRead (read : Nat) : List (Action Nat) :=
  [.read .get (.of "k") 0, .resumeRead read, .settleRead read false, .completeRead read 0]

def outage : List (Action Nat) :=
  [.enqueue (.set (.of "k") entry), .begin 0, .settleFallback, .check 0, .resume, .settlePrimary (.failed false), .complete 0,
    .read .get (.of "k") 9, .probe true 9 9, .settleReplay .ok, .resumeReplay 9, .finish 9, .release, .resumeRead 0,
    .settleRead 0 true, .completeRead 0 9]

theorem run_faithful_outage : ∃ cache, run options outage = some cache ∧ cache.state = .closed ∧
    (cache.primary (.of "k") = contents cache.acknowledged (.of "k") ∨
      (cache.primary (.of "k") = none ∧ cache.Excuses (.of "k"))) ∧
    cache.reads 0 = some ⟨.get, .of "k", .returned (.entry (some entry)), true⟩ ∧
    (.entry (some entry) = ReadKind.get.reply (contents cache.acknowledged (.of "k")) ∨
      (.entry (some entry) = ReadKind.get.reply (τ := Nat) none ∧ cache.Excuses (.of "k"))) := by
  obtain ⟨cache, hrun⟩ := Option.isSome_iff_exists.mp (by decide : (run options outage).isSome)
  have hidle : (run options outage).map (fun cache => (cache.state, cache.queue, cache.running)) =
      some (.closed, [], none) := by decide
  have hread : ((run options outage).bind (·.reads 0)).map (fun read => (read.kind, read.key, read.stage, read.quiet)) =
      some (.get, .of "k", .returned (.entry (some entry)), true) := by decide
  rw [hrun, Option.map_some, Option.some_inj, Prod.mk.injEq, Prod.mk.injEq] at hidle
  rw [hrun, Option.bind_some] at hread
  obtain ⟨⟨kind, key, stage, quiet⟩, hfound, hshown⟩ := Option.map_eq_some_iff.mp hread
  cases hshown
  have hfaithful := run_faithful hrun (by decide)
  exact ⟨cache, hrun, hidle.1, hfaithful.1 hidle.1 hidle.2.1 hidle.2.2 _, hfound, hfaithful.2 0 .get _ _ hfound⟩

/-- A deletion fails when a recovery has come to the end of its journal and has not closed the circuit. -/
def overtaken : List (Action Nat) :=
  applies (.set (.of "k") entry) ++
  [.enqueue (.delete (.of "k")), .begin 0, .settleFallback, .check 0, .resume] ++ failsRead 0 ++ failsRead 1 ++ failsRead 2 ++
  [.read .get (.of "k") 9, .settlePrimary (.failed false), .probe true 9 9, .complete 9, .finish 9, .release]

theorem overtaken_comes_back : ∃ cache, run options overtaken = some cache ∧ cache.state = .closed ∧ cache.queue = [] ∧
    cache.running = none ∧ cache.acknowledged = [.set (.of "k") entry, .delete (.of "k")] ∧
    cache.primary (.of "k") = some entry := by
  obtain ⟨cache, hrun⟩ := Option.isSome_iff_exists.mp (by decide : (run options overtaken).isSome)
  have hidle : (run options overtaken).map (fun cache => (cache.state, cache.queue, cache.running)) =
      some (.closed, [], none) := by decide
  have hheld : (run options overtaken).map (fun cache => (cache.acknowledged, cache.primary (.of "k"))) =
      some ([.set (.of "k") entry, .delete (.of "k")], some entry) := by decide
  rw [hrun, Option.map_some, Option.some_inj, Prod.mk.injEq, Prod.mk.injEq] at hidle
  rw [hrun, Option.map_some, Option.some_inj, Prod.mk.injEq] at hheld
  exact ⟨cache, hrun, hidle.1, hidle.2.1, hidle.2.2, hheld⟩

end Veryfront.Proxy.Resilient
