import Mathlib.Data.List.Perm.Subperm
import Veryfront.Config.PreparedContext
import Veryfront.Lib.Pointwise

/-!
# Fingerprints tell contexts apart

The bytes of a prepared context are frames that end themselves, so that the context can be read off them.
-/

namespace Veryfront.Config

open Lib

/-! ## Snapshots -/

theorem sortKeys_perm (keys : List JsString) : (sortKeys keys).Perm keys := List.perm_insertionSort _ keys

theorem sortKeys_eq_of_perm {keys keys' : List JsString} (h : keys.Perm keys') : sortKeys keys = sortKeys keys' :=
  ((sortKeys_perm keys).trans (h.trans (sortKeys_perm keys').symm)).eq_of_pairwise (fun _ _ _ _ => le_antisymm)
    (List.pairwise_insertionSort _ keys) (List.pairwise_insertionSort _ keys')

structure Taken (input output : Environment) (keys : List JsString) : Prop where
  same : ∀ key, output.get? key = if key ∈ keys then input.get? key else none
  within : ∀ entry ∈ output.entries, entry.1.length ≤ maxEnvironmentKeyLength ∧ entry.2.length ≤ maxEnvironmentValueLength

theorem snapshotKey_ok {input output output' : Environment} {keys : List JsString} {key : JsString} {bytes bytes' : Nat}
    (h : Taken input output keys) (hkey : key ∈ input.keys)
    (hstep : snapshotKey input (output, bytes) key = .ok (output', bytes')) : Taken input output' (keys ++ [key]) := by
  obtain ⟨value, hvalue⟩ : ∃ value, input.get? key = some value :=
    Option.ne_none_iff_exists'.mp fun hnone => (input.get?_eq_none key).mp hnone hkey
  simp only [snapshotKey, hvalue, Option.getD_some] at hstep
  split at hstep
  · cases hstep
  rename_i hkeyOk
  split at hstep
  · cases hstep
  rename_i hvalueOk
  split at hstep
  · cases hstep
  split at hstep
  · cases hstep
  obtain ⟨rfl, -⟩ := Prod.mk.inj (Except.ok.inj hstep)
  constructor
  · intro k
    rw [OrdMap.get?_set, h.same]
    by_cases hk : k = key
    · subst hk
      simp [hvalue]
    · simp [hk]
  · intro entry hentry
    have hnew := (OrdMap.mem_setEntries _ _ _ _ _).mp hentry
    split at hnew
    · rename_i heq
      rw [heq, hnew]
      omega
    · exact h.within entry hnew

theorem snapshotKeys_ok {input output output' : Environment} {taken keys : List JsString} {bytes bytes' : Nat}
    (h : Taken input output taken) (hkeys : ∀ key ∈ keys, key ∈ input.keys)
    (hrun : keys.foldlM (snapshotKey input) (output, bytes) = .ok (output', bytes')) :
    Taken input output' (taken ++ keys) := by
  induction keys generalizing output bytes taken with
  | nil =>
    obtain ⟨rfl, -⟩ := Prod.mk.inj (Except.ok.inj hrun)
    rwa [List.append_nil]
  | cons key keys ih =>
    rw [List.foldlM_cons] at hrun
    cases hstep : snapshotKey input (output, bytes) key with
    | error error =>
      rw [hstep] at hrun
      cases hrun
    | ok next =>
      rw [hstep] at hrun
      have hnext := ih (snapshotKey_ok h (hkeys key List.mem_cons_self) hstep)
        (fun k hk => hkeys k (List.mem_cons_of_mem _ hk)) hrun
      rwa [List.append_assoc, List.singleton_append] at hnext

theorem snapshotTenantEnvironment_ok {input output : Environment} (h : snapshotTenantEnvironment input = .ok output) :
    output.Within ∧ ∀ key, output.get? key = input.get? key := by
  rw [snapshotTenantEnvironment] at h
  split at h
  · cases h
  · rename_i hentries
    cases hrun : (sortKeys input.keys).foldlM (snapshotKey input) (.empty, 0) with
    | error error =>
      rw [hrun] at h
      cases h
    | ok taken =>
      rw [hrun] at h
      obtain rfl := Except.ok.inj h
      have hempty : Taken input .empty [] := ⟨fun _ => rfl, nofun⟩
      have htaken := snapshotKeys_ok hempty (fun key hkey => (sortKeys_perm _).mem_iff.mp hkey) hrun
      have hsame : ∀ key, taken.1.get? key = input.get? key := by
        intro key
        rw [htaken.same, List.nil_append]
        split
        · rfl
        · rename_i hkey
          exact ((input.get?_eq_none key).mpr fun hmem => hkey ((sortKeys_perm _).mem_iff.mpr hmem)).symm
      have hkeys : taken.1.keys ⊆ input.keys := by
        intro key hkey
        by_contra hnone
        have hget := (hsame key).trans ((input.get?_eq_none key).mpr hnone)
        exact (taken.1.get?_eq_none key).mp hget hkey
      have hlength := (List.subperm_of_subset taken.1.keys_nodup hkeys).length_le
      exact ⟨⟨by omega, fun e he => (htaken.within e he).1, fun e he => (htaken.within e he).2⟩, hsame⟩

def prepareContext (name : JsString) (input : Environment) : Except EvaluationError PreparedContextState :=
  match hname : validateEnvironmentName name, henvironment : snapshotTenantEnvironment input with
  | .ok name', .ok environment => .ok
    { tenantEnvironment := environment
      environmentName := name'
      within := (snapshotTenantEnvironment_ok henvironment).1
      name_within := by
        rw [validateEnvironmentName] at hname
        split at hname
        · cases hname
        · rename_i hvalid
          obtain rfl := Except.ok.inj hname
          push Not at hvalid
          exact hvalid.2.1 }
  | .error error, _ => .error error
  | _, .error error => .error error

/-! ## Frames -/

def frame (value : JsString) : List Nat := BigEndian.write 4 value.length ++ value.flatMap fun code : CodeUnit => BigEndian.write 2 code

def entryFrames (entry : JsString × JsString) : List Nat := frame entry.1 ++ frame entry.2

def contextFrames (name : JsString) (entries : List (JsString × JsString)) : List Nat :=
  frame fingerprintNamespace ++ (frame policyVersion ++ (frame name ++
    (BigEndian.write 4 entries.length ++ entries.flatMap entryFrames)))

theorem write4_delimiting : SelfDelimiting (· < 2 ^ 32) (BigEndian.write 4) :=
  .of_width (BigEndian.length_write 4) fun a b ha hb h => by
    have hread : ∀ n < 2 ^ 32, BigEndian.read (BigEndian.write 4 n) = n := fun _ hn => BigEndian.read_write hn
    rw [← hread a ha, h, hread b hb]

theorem code_delimiting : SelfDelimiting (fun _ : CodeUnit => True) (fun code => BigEndian.write 2 code) := by
  refine .of_width (fun code => BigEndian.length_write 2 code) fun a b _ _ h => Fin.ext ?_
  have hread : ∀ code : CodeUnit, BigEndian.read (BigEndian.write 2 code) = code := fun code => BigEndian.read_write code.isLt
  rw [← hread a, h, hread b]

def Fits (value : JsString) : Prop := value.length < 2 ^ 32

theorem frame_delimiting : SelfDelimiting Fits frame := by
  have hcounted := write4_delimiting.counted code_delimiting
  intro a b s t ha hb h
  exact @hcounted a b s t ⟨ha, fun _ _ => trivial⟩ ⟨hb, fun _ _ => trivial⟩ h

theorem entries_delimiting : SelfDelimiting (fun entries : List (JsString × JsString) =>
    entries.length < 2 ^ 32 ∧ ∀ entry ∈ entries, Fits entry.1 ∧ Fits entry.2)
    fun entries => BigEndian.write 4 entries.length ++ entries.flatMap entryFrames :=
  write4_delimiting.counted (frame_delimiting.pair frame_delimiting)

/-! ## What is written -/

variable {bytes : Buffer Nat} {written : List Nat}

theorem writeUint32_holds {room : Nat} (value : Nat)
    (h : bytes.Holds written (room + 4)) : (writeUint32 bytes value).Holds (written ++ BigEndian.write 4 value) room := by
  have hfour : BigEndian.write 4 value =
      [value / 2 ^ 24 % 256] ++ [value / 2 ^ 16 % 256] ++ [value / 2 ^ 8 % 256] ++ [value % 256] := by
    simp only [BigEndian.write, List.nil_append, Nat.div_div_eq_div_mul]
    rfl
  rw [hfour, ← List.append_assoc, ← List.append_assoc, ← List.append_assoc]
  exact (((h.put _).put _).put _).put _

theorem writeUint16_holds {room : Nat} (code : CodeUnit)
    (h : bytes.Holds written (room + 2)) :
    (writeUint16 bytes code).Holds (written ++ BigEndian.write 2 code) room := by
  have htwo : BigEndian.write 2 code.val = [code.val / 2 ^ 8 % 256] ++ [code.val % 256] := rfl
  rw [htwo, ← List.append_assoc]
  exact (h.put _).put _

theorem length_frame (value : JsString) : (frame value).length = 4 + value.length * 2 := by
  have hunits : (value.flatMap fun code : CodeUnit => BigEndian.write 2 code).length = value.length * 2 := by
    simp [List.length_flatMap]
  rw [frame, List.length_append, BigEndian.length_write, hunits]

theorem writeFingerprintFrame_holds {room : Nat} (value : JsString)
    (h : bytes.Holds written (room + (frame value).length)) :
    (writeFingerprintFrame bytes value).Holds (written ++ frame value) room := by
  rw [frame, List.length_append, BigEndian.length_write, Nat.add_comm 4, ← Nat.add_assoc] at h
  rw [frame, ← List.append_assoc]
  refine (writeUint32_holds _ h).foldl fun {buffer written room} code hcode => writeUint16_holds code ?_
  rwa [BigEndian.length_write] at hcode

theorem addFingerprintFrameLength_eq {total : Nat} {value : JsString} (h : total + (frame value).length ≤ maxSafeInteger) :
    addFingerprintFrameLength total value = some (total + (frame value).length) := by
  rw [length_frame] at h ⊢
  simp only [addFingerprintFrameLength]
  rw [if_neg (by omega)]

variable {entries : List (JsString × JsString)}

theorem addEntryLengths_eq {total : Nat}
    (h : total + (entries.flatMap entryFrames).length ≤ maxSafeInteger) :
    entries.foldlM addEntryLength total = some (total + (entries.flatMap entryFrames).length) := by
  induction entries generalizing total with
  | nil => rfl
  | cons entry entries ih =>
    rw [List.flatMap_cons, List.length_append, entryFrames, List.length_append] at h ⊢
    rw [List.foldlM_cons, addEntryLength, addFingerprintFrameLength_eq (by omega), Option.bind_some,
      addFingerprintFrameLength_eq (by omega), Option.bind_eq_bind, Option.bind_some, ih (by omega)]
    congr 1
    omega

theorem writeEntry_holds {room : Nat} (entry : JsString × JsString)
    (h : bytes.Holds written (room + (entryFrames entry).length)) :
    (writeEntry bytes entry).Holds (written ++ entryFrames entry) room := by
  rw [entryFrames, List.length_append, Nat.add_comm (frame entry.1).length, ← Nat.add_assoc] at h
  rw [entryFrames, ← List.append_assoc]
  exact writeFingerprintFrame_holds _ (writeFingerprintFrame_holds _ h)

def sortedEntries (environment : Environment) : List (JsString × JsString) :=
  (sortedEnvironmentKeys environment).filterMap fun key => (environment.get? key).map (key, ·)

theorem mapM_sortedKeys (environment : Environment) :
    ((sortedEnvironmentKeys environment).mapM fun key => (environment.get? key).map (key, ·)) = some (sortedEntries environment) := by
  have hkeys : ∀ key ∈ sortedEnvironmentKeys environment, key ∈ environment.keys := fun _ hkey => (sortKeys_perm _).mem_iff.mp hkey
  rw [sortedEntries]
  generalize sortedEnvironmentKeys environment = keys at hkeys
  induction keys with
  | nil => rfl
  | cons key keys ih =>
    obtain ⟨value, hvalue⟩ : ∃ value, environment.get? key = some value :=
      Option.ne_none_iff_exists'.mp fun hnone => (environment.get?_eq_none key).mp hnone (hkeys key List.mem_cons_self)
    rw [List.mapM_cons, hvalue, ih fun k hk => hkeys k (List.mem_cons_of_mem _ hk)]
    simp [hvalue]

theorem mem_sortedEntries {environment : Environment} {entry : JsString × JsString} :
    entry ∈ sortedEntries environment ↔ entry ∈ environment.entries := by
  rw [sortedEntries, List.mem_filterMap, ← environment.get?_eq_some]
  constructor
  · rintro ⟨key, -, hentry⟩
    obtain ⟨value, hvalue, rfl⟩ := Option.map_eq_some_iff.mp hentry
    exact hvalue
  · intro hvalue
    refine ⟨entry.1, ?_, by rw [hvalue]; rfl⟩
    rw [sortedEnvironmentKeys, (sortKeys_perm _).mem_iff]
    by_contra hnone
    rw [(environment.get?_eq_none entry.1).mpr hnone] at hvalue
    cases hvalue

theorem length_sortedEntries (environment : Environment) :
    (sortedEntries environment).length = (sortedEnvironmentKeys environment).length :=
  ((mapM_eq_some_iff.mp (mapM_sortedKeys environment)).length_eq).symm

theorem sortedEntries_eq_iff {a b : Environment} : sortedEntries a = sortedEntries b ↔ ∀ key, a.get? key = b.get? key := by
  constructor
  · intro h key
    refine Option.ext fun value => ?_
    rw [a.get?_eq_some, b.get?_eq_some, ← mem_sortedEntries, ← mem_sortedEntries, h]
  · intro h
    have hkeys : a.keys.Perm b.keys := by
      rw [List.perm_ext_iff_of_nodup a.keys_nodup b.keys_nodup]
      intro key
      rw [← not_iff_not, ← a.get?_eq_none, ← b.get?_eq_none, h]
    rw [sortedEntries, sortedEntries, sortedEnvironmentKeys, sortedEnvironmentKeys, sortKeys_eq_of_perm hkeys]
    simp only [h]

/-! ## The bytes of a context -/

theorem length_contextFrames (name : JsString) (entries : List (JsString × JsString)) :
    (contextFrames name entries).length = 4 + (frame fingerprintNamespace).length + (frame policyVersion).length +
      (frame name).length + (entries.flatMap entryFrames).length := by
  rw [contextFrames, List.length_append, List.length_append, List.length_append, List.length_append, BigEndian.length_write]
  omega

theorem contextFrames_holds {cells : List Nat} {name : JsString}
    (h : cells.length = (contextFrames name entries).length) :
    Buffer.Holds (entries.foldl writeEntry (writeUint32 (writeFingerprintFrame (writeFingerprintFrame (writeFingerprintFrame
      ⟨cells, 0⟩ fingerprintNamespace) policyVersion) name) entries.length)) (contextFrames name entries) 0 := by
  have hroom : cells.length = 0 + (entries.flatMap entryFrames).length + 4 + (frame name).length +
      (frame policyVersion).length + (frame fingerprintNamespace).length := by
    rw [h, length_contextFrames]
    omega
  have hstart := Buffer.holds_start cells
  rw [hroom] at hstart
  have hname := writeFingerprintFrame_holds _ (writeFingerprintFrame_holds _ (writeFingerprintFrame_holds _ hstart))
  have hentries := (writeUint32_holds entries.length hname).foldl writeEntry_holds
  simpa [contextFrames, List.append_assoc] using hentries

theorem length_entryFrames_le {bound : Nat}
    (h : ∀ entry ∈ entries, (entryFrames entry).length ≤ bound) : (entries.flatMap entryFrames).length ≤ entries.length * bound := by
  induction entries with
  | nil => exact Nat.zero_le _
  | cons entry entries ih =>
    have hhead := h entry List.mem_cons_self
    have hrest := ih fun e he => h e (List.mem_cons_of_mem _ he)
    rw [List.flatMap_cons, List.length_append, List.length_cons, Nat.succ_mul]
    omega

theorem length_constants : fingerprintNamespace.length = 32 ∧ policyVersion.length = 28 := by
  simp [fingerprintNamespace, policyVersion, asciiString]

namespace PreparedContextState

variable (state : PreparedContextState)

theorem entries_fit : (sortedEntries state.tenantEnvironment).length ≤ maxEnvironmentEntries ∧
    ∀ entry ∈ sortedEntries state.tenantEnvironment,
      entry.1.length ≤ maxEnvironmentKeyLength ∧ entry.2.length ≤ maxEnvironmentValueLength := by
  constructor
  · rw [length_sortedEntries, sortedEnvironmentKeys, (sortKeys_perm _).length_eq]
    exact state.within.entries
  · intro entry hentry
    have hmem := mem_sortedEntries.mp hentry
    exact ⟨state.within.keys entry hmem, state.within.values entry hmem⟩

theorem frames_small : (contextFrames state.environmentName (sortedEntries state.tenantEnvironment)).length ≤ maxSafeInteger := by
  obtain ⟨hentries, hfit⟩ := state.entries_fit
  have hentry : ∀ entry ∈ sortedEntries state.tenantEnvironment, (entryFrames entry).length ≤ 2099208 := by
    intro entry hentry
    obtain ⟨hkey, hvalue⟩ := hfit entry hentry
    rw [entryFrames, List.length_append, length_frame, length_frame]
    unfold maxEnvironmentKeyLength at hkey
    unfold maxEnvironmentValueLength at hvalue
    omega
  have hframes := length_entryFrames_le hentry
  have hname := state.name_within
  have hmul := Nat.mul_le_mul_right 2099208 hentries
  rw [length_contextFrames, length_frame, length_frame, length_frame, length_constants.1, length_constants.2]
  unfold maxEnvironmentEntries at hmul
  unfold maxEnvironmentNameLength at hname
  unfold maxSafeInteger
  omega

theorem canonicalPreparedContextBytes_eq :
    ∃ bytes, canonicalPreparedContextBytes state = some bytes ∧ bytes.offset = bytes.cells.length ∧
      bytes.cells = contextFrames state.environmentName (sortedEntries state.tenantEnvironment) := by
  have hsmall := state.frames_small
  rw [length_contextFrames] at hsmall
  simp only [canonicalPreparedContextBytes, mapM_sortedKeys, Option.bind_eq_bind, Option.bind_some]
  rw [addFingerprintFrameLength_eq (by omega), Option.bind_some, addFingerprintFrameLength_eq (by omega), Option.bind_some,
    addFingerprintFrameLength_eq (by omega), Option.bind_some]
  rw [addEntryLengths_eq hsmall, Option.bind_some, ← length_contextFrames, ← length_sortedEntries]
  have hlength : (List.replicate (contextFrames state.environmentName (sortedEntries state.tenantEnvironment)).length 0).length =
      (contextFrames state.environmentName (sortedEntries state.tenantEnvironment)).length := List.length_replicate
  obtain ⟨hcells, hoffset⟩ := (contextFrames_holds hlength).full
  rw [if_neg (by rw [hoffset]; exact fun h => h rfl)]
  exact ⟨_, rfl, by rw [hoffset, hcells], hcells⟩

end PreparedContextState

/-- Contexts share their bytes just when they are the same: in the name of the environment and in every key of it. -/
theorem canonicalPreparedContextBytes_injective (a b : PreparedContextState) :
    (∃ bytes, canonicalPreparedContextBytes a = some bytes ∧ bytes.offset = bytes.cells.length) ∧
      ((canonicalPreparedContextBytes a).map Buffer.cells = (canonicalPreparedContextBytes b).map Buffer.cells ↔
        a.environmentName = b.environmentName ∧ ∀ key, a.tenantEnvironment.get? key = b.tenantEnvironment.get? key) := by
  obtain ⟨bytes, hbytes, hoffset, hcells⟩ := a.canonicalPreparedContextBytes_eq
  obtain ⟨bytes', hbytes', -, hcells'⟩ := b.canonicalPreparedContextBytes_eq
  refine ⟨⟨bytes, hbytes, hoffset⟩, ?_⟩
  rw [hbytes, hbytes', Option.map_some, Option.map_some, Option.some.injEq, hcells, hcells', ← sortedEntries_eq_iff]
  constructor
  · intro h
    have hrest := List.append_cancel_left (List.append_cancel_left h)
    have hname : ∀ state : PreparedContextState, Fits state.environmentName := fun state =>
      Nat.lt_of_le_of_lt state.name_within (by decide)
    have hentries : ∀ state : PreparedContextState, (sortedEntries state.tenantEnvironment).length < 2 ^ 32 ∧
        ∀ entry ∈ sortedEntries state.tenantEnvironment, Fits entry.1 ∧ Fits entry.2 := fun state =>
      ⟨Nat.lt_of_le_of_lt state.entries_fit.1 (by decide), fun entry hentry =>
        ⟨Nat.lt_of_le_of_lt (state.entries_fit.2 entry hentry).1 (by decide),
          Nat.lt_of_le_of_lt (state.entries_fit.2 entry hentry).2 (by decide)⟩⟩
    obtain ⟨heq, hlast⟩ := frame_delimiting (hname a) (hname b) hrest
    exact ⟨heq, entries_delimiting.injective (hentries a) (hentries b) hlast⟩
  · rintro ⟨hname, hentries⟩
    rw [hname, hentries]

end Veryfront.Config
