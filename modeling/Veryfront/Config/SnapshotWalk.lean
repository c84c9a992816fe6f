import Mathlib.Algebra.Group.Prod
import Veryfront.Config.SnapshotOrder

/-!
# What a snapshot costs

The walk succeeds if the value is admissible, its objects are distinct, and the sums of what it counts are within the
limits. Then it gives the canonical form.
-/

namespace Veryfront.Config.Snapshots

open Lib

variable {ρ : Type}

/-! ## The canonical form -/

def canonical : Value ρ → ConfigSnapshotValue
  | .null => .null
  | .boolean b => .boolean b
  | .number n => .number n
  | .string s => .string s
  | .array _ length items => .array () length fun i => canonical (items i)
  | .record _ keys distinct values =>
    .record () (sortKeys (ownKeys keys)) (sortKeys_nodup distinct) fun index =>
      canonical (values (place (sortKeys_perm keys) index))

/-- Every part is within the limits of its own, in so many levels. -/
def Admissible : Nat → Value ρ → Prop
  | 0, _ => False
  | _ + 1, .null => True
  | _ + 1, .boolean _ => True
  | _ + 1, .number n => n.isFinite = true
  | _ + 1, .string s => s.length ≤ maxStringLength
  | remaining + 1, .array _ length items => length ≤ maxArrayLength ∧ ∀ i, Admissible remaining (items i)
  | remaining + 1, .record _ keys _ values =>
    keys.length ≤ maxObjectKeys ∧ (∀ key ∈ keys, key.length ≤ maxKeyLength ∧ isDangerousKey key = false) ∧
      ∀ i, Admissible remaining (values i)

/-! ## Costs -/

/-- The objects, the values, the properties and the bytes. -/
abbrev Cost (ρ : Type) := Multiset ρ × Nat × Nat × Nat

def keyBytes (key : JsString) : Nat := estimateJsonStringBytes key.length + OBJECT_PROPERTY_SEPARATOR_BYTES

def cost : Value ρ → Cost ρ
  | .null => (0, 1, 0, 4)
  | .boolean _ => (0, 1, 0, 5)
  | .number _ => (0, 1, 0, JSON_NUMBER_MAX_BYTES)
  | .string s => (0, 1, 0, estimateJsonStringBytes s.length)
  | .array ref length items =>
    ({ref}, 1, length, ARRAY_OR_OBJECT_BYTES + (length - 1) * ARRAY_ITEM_SEPARATOR_BYTES) + ∑ i, cost (items i)
  | .record ref keys _ values =>
    ({ref}, 1, keys.length, ARRAY_OR_OBJECT_BYTES + (keys.length - 1) * OBJECT_PROPERTY_SEPARATOR_BYTES + (keys.map keyBytes).sum) +
      ∑ i, cost (values i)

/-- There is room for a cost. -/
def SnapshotState.Fits (state : SnapshotState ρ) (c : Cost ρ) : Prop :=
  (state.seen.val + c.1).Nodup ∧ state.nodeCount + c.2.1 ≤ maxTotalNodes ∧ state.propertyCount + c.2.2.1 ≤ maxTotalProperties ∧
    state.estimatedBytes + c.2.2.2 ≤ maxEstimatedBytes

def SnapshotState.after (state : SnapshotState ρ) (c : Cost ρ) (h : state.Fits c) : SnapshotState ρ where
  seen := ⟨state.seen.val + c.1, h.1⟩
  nodeCount := state.nodeCount + c.2.1
  propertyCount := state.propertyCount + c.2.2.1
  estimatedBytes := state.estimatedBytes + c.2.2.2
  nodes_le := h.2.1
  properties_le := h.2.2.1
  bytes_le := h.2.2.2

theorem SnapshotState.fits_add {state : SnapshotState ρ} {c d : Cost ρ} :
    state.Fits (c + d) ↔ ∃ h : state.Fits c, (state.after c h).Fits d := by
  simp only [Fits, after, Prod.fst_add, Prod.snd_add, ← add_assoc]
  constructor
  · rintro ⟨hseen, hnodes, hproperties, hbytes⟩
    exact ⟨⟨Multiset.nodup_of_le (Multiset.le_add_right _ _) hseen, by omega, by omega, by omega⟩, hseen, hnodes, hproperties, hbytes⟩
  · rintro ⟨-, h⟩
    exact h

variable [DecidableEq ρ]

instance (state : SnapshotState ρ) (c : Cost ρ) : Decidable (state.Fits c) := inferInstanceAs (Decidable (_ ∧ _))

def snapshotPurse : Purse (SnapshotState ρ) (Cost ρ) where
  charge state c := if h : state.Fits c then some (state.after c h) else none
  charge_zero state := by
    have hfits : state.Fits 0 := by
      refine ⟨?_, state.nodes_le, state.properties_le, state.bytes_le⟩
      simpa using state.seen.nodup
    rw [dif_pos hfits]
    exact congrArg some (SnapshotState.ext (Finset.val_injective (add_zero _)) rfl rfl rfl)
  charge_add state c d := by
    by_cases h : state.Fits c
    · rw [dif_pos h, Option.bind_some]
      by_cases h' : (state.after c h).Fits d
      · rw [dif_pos h', dif_pos (SnapshotState.fits_add.mpr ⟨h, h'⟩)]
        refine congrArg some (SnapshotState.ext (Finset.val_injective ?_) ?_ ?_ ?_)
        all_goals simp [SnapshotState.after, add_assoc]
      · rw [dif_neg h', dif_neg fun hsum => h' (SnapshotState.fits_add.mp hsum).2]
    · rw [dif_neg h, dif_neg fun hsum => h (SnapshotState.fits_add.mp hsum).1]
      rfl

/-! ## What each step spends -/

theorem charge_eq {state : SnapshotState ρ} {c : Cost ρ} {next : Option (SnapshotState ρ)}
    (hroom : ∀ h : state.Fits c, next = some (state.after c h)) (hfull : ¬state.Fits c → next = none) :
    next = snapshotPurse.charge state c := by
  change next = if h : state.Fits c then some (state.after c h) else none
  split
  · exact hroom _
  · exact hfull ‹_›

theorem spends_advance {next : SnapshotState ρ → Option (SnapshotState ρ)} {code : ConfigSnapshotErrorCode} {path reason : Text}
    {c : Cost ρ} (h : ∀ state, next state = snapshotPurse.charge state c) :
    Spends snapshotPurse (advance next code path reason) True () c := by
  intro state result state'
  have hrun : (advance next code path reason).run state =
      (next state).elim (.error ⟨code, path, reason⟩) fun after => .ok ((), after) := by
    simp only [advance, StateT.run_bind, StateT.run_get, pure_bind]
    cases next state <;> rfl
  rw [hrun, h]
  cases snapshotPurse.charge state c with
  | some after => simp
  | none => simp

theorem spends_addNode (path : Text) : Spends snapshotPurse (addNode path : SnapshotM ρ Unit) True () (0, 1, 0, 0) := by
  refine spends_advance fun state => charge_eq (fun h => ?_) fun h => dif_neg fun hnodes => h ?_
  · rw [dif_pos h.2.1]
    exact congrArg some (SnapshotState.ext (Finset.val_injective (add_zero _).symm) rfl rfl rfl)
  · exact ⟨by simpa using state.seen.nodup, hnodes, state.properties_le, state.bytes_le⟩

theorem spends_addProperties (count : Nat) (path : Text) :
    Spends snapshotPurse (addProperties count path : SnapshotM ρ Unit) True () (0, 0, count, 0) := by
  refine spends_advance fun state => charge_eq (fun h => ?_) fun h => dif_pos (by_contra fun hroom => h ?_)
  · have hproperties : state.propertyCount + count ≤ maxTotalProperties := h.2.2.1
    rw [dif_neg (by omega)]
    exact congrArg some (SnapshotState.ext (Finset.val_injective (add_zero _).symm) rfl rfl rfl)
  · have hproperties := state.properties_le
    exact ⟨by simpa using state.seen.nodup, state.nodes_le, by change _ + count ≤ _; omega, state.bytes_le⟩

theorem spends_addEstimatedBytes (count : Nat) (path : Text) :
    Spends snapshotPurse (addEstimatedBytes count path : SnapshotM ρ Unit) True () (0, 0, 0, count) := by
  refine spends_advance fun state => charge_eq (fun h => ?_) fun h => dif_pos (by_contra fun hroom => h ?_)
  · have hbytes : state.estimatedBytes + count ≤ maxEstimatedBytes := h.2.2.2
    rw [dif_neg (by omega)]
    exact congrArg some (SnapshotState.ext (Finset.val_injective (add_zero _).symm) rfl rfl rfl)
  · have hbytes := state.bytes_le
    exact ⟨by simpa using state.seen.nodup, state.nodes_le, state.properties_le, by change _ + count ≤ _; omega⟩

theorem spends_markSeen (ref : ρ) (path : Text) : Spends snapshotPurse (markSeen ref path) True () ({ref}, 0, 0, 0) := by
  have hnodup : ∀ state : SnapshotState ρ, (state.seen.val + {ref}).Nodup ↔ ref ∉ state.seen := fun state => by
    rw [Multiset.nodup_add]
    simpa using fun _ => state.seen.nodup
  refine spends_advance fun state => charge_eq (fun h => ?_) fun h => dif_pos (by_contra fun hnew => h ?_)
  · rw [dif_neg ((hnodup state).mp h.1)]
    refine congrArg some (SnapshotState.ext (Finset.val_injective ?_) rfl rfl rfl)
    rw [Finset.cons_val, ← Multiset.singleton_add, add_comm]
    rfl
  · exact ⟨(hnodup state).mpr hnew, state.nodes_le, state.properties_le, state.bytes_le⟩

omit [DecidableEq ρ] in
theorem reject_run {α : Type} (code : ConfigSnapshotErrorCode) (path reason : Text) (state : SnapshotState ρ)
    (result : α × SnapshotState ρ) : (reject code path reason : SnapshotM ρ α).run state ≠ .ok result := nofun

/-! ## The walk -/

theorem spends_checkKey (path : Text) (key : JsString) : Spends snapshotPurse (checkKey path key : SnapshotM ρ Unit)
    (key.length ≤ maxKeyLength ∧ isDangerousKey key = false) () (0, 0, 0, keyBytes key) := by
  refine ((Spends.guard (reject_run _ _ _) fun _ => Spends.guard (reject_run _ _ _) fun _ => spends_addEstimatedBytes _ _).congr ?_ rfl)
  rw [not_lt, Bool.not_eq_true, and_true]

omit [DecidableEq ρ] in
theorem sum_keyBytes (keys : List JsString) :
    (keys.map fun key => ((0, 0, 0, keyBytes key) : Cost ρ)).sum = (0, 0, 0, (keys.map keyBytes).sum) := by
  induction keys with
  | nil => rfl
  | cons key keys ih =>
    rw [List.map_cons, List.sum_cons, ih, List.map_cons, List.sum_cons]
    simp

section Walk

variable {canonicalizeChild : Value ρ → Text → SnapshotM ρ ConfigSnapshotValue} {allowed : Value ρ → Prop} (path : Text)
  (hchild : ∀ child path, Spends snapshotPurse (canonicalizeChild child path) (allowed child) (canonical child) (cost child))

include hchild

theorem spends_canonicalizeArray {length : Nat} (items : Fin length → Value ρ) :
    Spends snapshotPurse (canonicalizeArray canonicalizeChild path length items)
      (length ≤ maxArrayLength ∧ ∀ i, allowed (items i)) (.array () length fun i => canonical (items i))
      ((0, 0, length, ARRAY_OR_OBJECT_BYTES + (length - 1) * ARRAY_ITEM_SEPARATOR_BYTES) + ∑ i, cost (items i)) := by
  have hwalk : Spends snapshotPurse (canonicalizeArray canonicalizeChild path length items) _ (.array () length fun i => canonical (items i)) _ :=
    Spends.guard (reject_run _ _ _) fun _ => (spends_addProperties length path).bind fun _ =>
      (spends_addEstimatedBytes _ path).bind fun _ =>
        (Spends.family fun index => hchild (items index) (arrayChildPath path index)).bind fun _ => Spends.pure _
  refine hwalk.congr (by simp) ?_
  rw [add_zero, ← add_assoc]
  congr 1
  simp

theorem spends_canonicalizeRecord {keys : List JsString} (distinct : keys.Nodup) (values : Fin keys.length → Value ρ) :
    Spends snapshotPurse (canonicalizeRecord canonicalizeChild path keys distinct values)
      (keys.length ≤ maxObjectKeys ∧ (∀ key ∈ keys, key.length ≤ maxKeyLength ∧ isDangerousKey key = false) ∧ ∀ i, allowed (values i))
      (.record () (sortKeys (ownKeys keys)) (sortKeys_nodup distinct) fun index =>
        canonical (values (place (sortKeys_perm keys) index)))
      ((0, 0, keys.length,
          ARRAY_OR_OBJECT_BYTES + (keys.length - 1) * OBJECT_PROPERTY_SEPARATOR_BYTES + (keys.map keyBytes).sum) +
        ∑ i, cost (values i)) := by
  have hwalk : Spends snapshotPurse (canonicalizeRecord canonicalizeChild path keys distinct values) _
      (.record () (sortKeys (ownKeys keys)) (sortKeys_nodup distinct) fun index =>
        canonical (values (place (sortKeys_perm keys) index))) _ :=
    Spends.guard (reject_run _ _ _) fun _ => (spends_addProperties (ownKeys keys).length path).bind fun _ =>
      (spends_addEstimatedBytes _ path).bind fun _ =>
        (Spends.forM fun key _ => spends_checkKey path key).bind fun _ =>
          (Spends.family fun index => hchild (values (place (sortKeys_perm keys) index)) (childPath path _)).bind fun _ => Spends.pure _
  have hperm := ownKeys_perm keys
  have hplaces := place_bijective (sortKeys_perm keys) distinct
  refine hwalk.congr ?_ ?_
  · rw [hperm.length_eq, not_lt, hplaces.surjective.forall]
    simp only [hperm.mem_iff, true_and, and_true]
  · rw [hperm.length_eq, sum_keyBytes, (hperm.map keyBytes).sum_eq, hplaces.sum_comp fun i => cost (values i), add_zero, ← add_assoc, ← add_assoc]
    congr 1
    simp [add_assoc]

end Walk

theorem spends_scalar (count : Nat) (path : Text) (result : ConfigSnapshotValue) :
    Spends snapshotPurse (do addEstimatedBytes count path; return result : SnapshotM ρ ConfigSnapshotValue) True result (0, 0, 0, count) :=
  ((spends_addEstimatedBytes count path).bind fun _ => Spends.pure result).congr (and_self_iff ..) (add_zero _)

theorem spends_canonicalizeValue (remaining : Nat) (value : Value ρ) (path : Text) :
    Spends snapshotPurse (canonicalizeValue remaining value path) (Admissible remaining value) (canonical value) (cost value) := by
  induction remaining generalizing value path with
  | zero => exact (Spends.throw _ _ _).congr (by simp [Admissible]) rfl
  | succ remaining ih =>
    unfold canonicalizeValue
    cases value with
    | null => exact ((spends_addNode path).bind fun _ => spends_scalar 4 path .null).congr (and_self_iff ..) (by simp [cost])
    | boolean b => exact ((spends_addNode path).bind fun _ => spends_scalar 5 path (.boolean b)).congr (and_self_iff ..) (by simp [cost])
    | number n =>
      dsimp only
      refine ((spends_addNode path).bind fun _ => Spends.guard (reject_run _ _ _) fun _ => spends_scalar _ path (.number n)).congr ?_ ?_
      · simp [Admissible]
      · simp [cost]
    | string text =>
      dsimp only
      refine ((spends_addNode path).bind fun _ => Spends.guard (reject_run _ _ _) fun _ => spends_scalar _ path (.string text)).congr ?_ ?_
      · simp [Admissible]
      · simp [cost]
    | array ref length items =>
      refine ((spends_addNode path).bind fun _ => (spends_markSeen ref path).bind fun _ =>
        spends_canonicalizeArray path (fun child path => ih child path) items).congr ?_ ?_
      · simp [Admissible]
      · rw [cost, ← add_assoc, ← add_assoc]
        simp
    | record ref keys distinct values =>
      refine ((spends_addNode path).bind fun _ => (spends_markSeen ref path).bind fun _ =>
        spends_canonicalizeRecord path (fun child path => ih child path) distinct values).congr ?_ ?_
      · simp [Admissible]
      · rw [cost, ← add_assoc, ← add_assoc]
        simp

/-! ## Acceptance -/

/-- The limits of the parts and of the sums are kept, and no object is there twice. -/
structure Accepted (value : Value ρ) : Prop where
  admissible : Admissible (maxDepth + 1) value
  distinct : (cost value).1.Nodup
  nodes : (cost value).2.1 ≤ maxTotalNodes
  properties : (cost value).2.2.1 ≤ maxTotalProperties
  bytes : (cost value).2.2.2 ≤ maxEstimatedBytes

theorem canonicalizeConfigSnapshot_eq_ok {value : Value ρ} {result : ConfigSnapshotValue} :
    canonicalizeConfigSnapshot value = .ok result ↔ Accepted value ∧ result = canonical value := by
  have hstart : ∀ c : Cost ρ, ({} : SnapshotState ρ).Fits c ↔
      c.1.Nodup ∧ c.2.1 ≤ maxTotalNodes ∧ c.2.2.1 ≤ maxTotalProperties ∧ c.2.2.2 ≤ maxEstimatedBytes := fun c => by
    simp [SnapshotState.Fits]
  have hspends := spends_canonicalizeValue (maxDepth + 1) value [36] {}
  rw [canonicalizeConfigSnapshot, StateT.run'_eq]
  constructor
  · intro h
    cases hrun : (canonicalizeValue (maxDepth + 1) value [36]).run {} with
    | error e =>
      rw [hrun] at h
      cases h
    | ok output =>
      obtain ⟨found, after⟩ := output
      rw [hrun] at h
      obtain ⟨hadmissible, rfl, hcharge⟩ := (hspends found after).mp hrun
      obtain ⟨hfits, -⟩ := Option.dite_none_right_eq_some.mp hcharge
      obtain ⟨hdistinct, hnodes, hproperties, hbytes⟩ := (hstart _).mp hfits
      exact ⟨⟨hadmissible, hdistinct, hnodes, hproperties, hbytes⟩, (Except.ok.inj h).symm⟩
  · rintro ⟨h, rfl⟩
    have hfits := (hstart (cost value)).mpr ⟨h.distinct, h.nodes, h.properties, h.bytes⟩
    rw [(hspends (canonical value) _).mpr ⟨h.admissible, rfl, dif_pos hfits⟩]
    rfl

end Veryfront.Config.Snapshots
