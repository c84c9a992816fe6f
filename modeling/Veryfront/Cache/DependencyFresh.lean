import Veryfront.Cache.DependencySafety
import Mathlib.Algebra.Order.BigOperators.Group.List
import Mathlib.Algebra.Order.Ring.Nat
import Mathlib.Data.Finset.Max

/-!
# What a call of `computeDepsHash` returns

A call that starts when nothing else is under way, and during which nothing is edited and no read fails, goes
through its build to its end, and returns the digest of the contents of everything its module imports.
-/

namespace Veryfront.Cache

open Lib

variable {env : DependencyEnv} {files : Text → Text} {w w' : HashWorld}

/-! ## One call -/

def HashWorld.Idle (w : HashWorld) : Prop := w.running = none ∧ w.buildQueue = []

/-- The steps of a call after its start that neither an edit nor a failed read disturbs. -/
def OwnStep (env : DependencyEnv) (w : HashWorld) (a : HashAction) (w' : HashWorld) : Prop :=
  (a = .build ∨ a = .finish ∨ ∃ p event, a = .advance p event ∧ event ≠ .readFails) ∧ w.step env a = some w'

def HashWorld.called (w : HashWorld) (filePath : Text) : HashWorld :=
  { w with buildQueue := w.buildQueue ++ [filePath] }

/-- A call of `computeDepsHash` that starts in `w` returns `hash`. -/
def Returns (env : DependencyEnv) (w : HashWorld) (filePath hash : Text) : Prop :=
  ∃ es w', Run (OwnStep env) (w.called filePath) es w' ∧ w'.results = w.results ++ [(filePath, hash)]

/-- Where `mods` lists all that the module imports, directly or not, the call can go on until it has returned
and does so within a bounded number of steps. -/
def Terminates (env : DependencyEnv) (w : HashWorld) (filePath : Text) : Prop :=
  ∀ mods : List Text, (∀ x, Reaches (importsOf env w.files) filePath x → x ∈ mods) →
    ∀ es w', Run (OwnStep env) (w.called filePath) es w' → es.length ≤ 5 * mods.length + 2 ∧
      ((∃ hash, w'.results = w.results ++ [(filePath, hash)]) ∨ ∃ a w'', OwnStep env w' a w'')

/-- After every run a call that starts when all others have finished returns what it returns with a fresh cache. -/
def ServesFresh (env : DependencyEnv) (steps : HashWorld → HashAction → HashWorld → Prop) : Prop :=
  ∀ files es w filePath, Run steps (.initial files) es w → w.Idle →
    Terminates env w filePath ∧ Terminates env (.initial w.files) filePath ∧
      ∀ hash fresh, Returns env w filePath hash → Returns env (.initial w.files) filePath fresh → hash = fresh

/-! ## The hash of what is on disk -/

/-- The digest of the contents of everything that `p` imports, in order. -/
def FreshHash (env : DependencyEnv) (files : Text → Text) (p hash : Text) : Prop :=
  ∃ mods : List Text, mods.Nodup ∧ mods.Pairwise (· ≤ ·) ∧ (∀ x, x ∈ mods ↔ Reaches (importsOf env files) p x) ∧
    hash = env.computeHash ((Text.of ":").intercalate
      ((mods.map fun dep => env.computeHash (files dep)).filter (· ≠ [])))

theorem FreshHash.unique {p h h' : Text} (hf : FreshHash env files p h) (hf' : FreshHash env files p h') : h = h' := by
  obtain ⟨mods, hnd, hsort, hmem, rfl⟩ := hf
  obtain ⟨mods', hnd', hsort', hmem', rfl⟩ := hf'
  have hperm : mods.Perm mods' := (List.perm_ext_iff_of_nodup hnd hnd').mpr fun x => (hmem x).trans (hmem' x).symm
  rw [hperm.eq_of_pairwise (fun a b _ _ hab hba => le_antisymm hab hba) hsort hsort']

theorem reaches_congr {r s : Text → List Text} {P : Text → Prop} (hP : ∀ u, P u → ∀ v ∈ s u, P v)
    (hrs : ∀ u, P u → r u = s u) {p : Text} (hp : P p) (x : Text) : Reaches r p x ↔ Reaches s p x := by
  constructor
  · intro h
    suffices Reaches s p x ∧ P x from this.1
    induction h with
    | refl => exact ⟨.refl, hp⟩
    | tail _ huv ih =>
      have hsv := hrs _ ih.2 ▸ huv
      exact ⟨ih.1.tail hsv, hP _ ih.2 _ hsv⟩
  · intro h
    suffices Reaches r p x ∧ P x from this.1
    induction h with
    | refl => exact ⟨.refl, hp⟩
    | tail _ huv ih => exact ⟨ih.1.tail (by rw [hrs _ ih.2]; exact huv), hP _ ih.2 _ huv⟩

theorem depsHash_fresh {cache : DependencyHashCache} {p : Text}
    (hclosed : ∀ q, cache.completedModules q = true → Followed env files cache (fun _ => False) q)
    (hp : cache.completedModules p = true) : FreshHash env files p (cache.depsHash env p) := by
  have hnext : ∀ u, cache.completedModules u = true → ∀ v ∈ importsOf env files u, cache.completedModules v = true :=
    fun u hu v hv => ((hclosed u hu).covered v hv).resolve_right id
  have hreach := reaches_congr hnext (fun u hu => (hclosed u hu).edges) hp
  have hmem : ∀ x, x ∈ cache.hashedModules p ↔ Reaches (importsOf env files) p x := fun x =>
    (List.perm_insertionSort _ _).mem_iff.trans ((cache.graph.mem_getTransitiveDependencies p x).trans (hreach x))
  refine ⟨cache.hashedModules p, ?_, List.pairwise_insertionSort _ _, hmem, ?_⟩
  · exact (List.perm_insertionSort _ _).nodup_iff.mpr (cache.graph.nodup_getTransitiveDependencies p)
  · have hmap : (cache.hashedModules p).map (fun dep => (cache.contentHashes dep).getD []) =
        (cache.hashedModules p).map fun dep => env.computeHash (files dep) := by
      refine List.map_congr_left fun dep hdep => ?_
      have hdone : cache.completedModules dep = true := by
        have h := (hmem dep).mp hdep
        induction h with
        | refl => exact hp
        | tail h huv ih => exact hnext _ (ih ((hmem _).mpr h)) _ huv
      rw [(hclosed dep hdone).hashed, Option.getD_some]
    rw [DependencyHashCache.depsHash, hmap]

/-! ## The build of an undisturbed call -/

structure OwnBuild (env : DependencyEnv) (files : Text → Text) (cache : DependencyHashCache) (b : GraphBuild) (p : Text) :
    Prop where
  root : b.root = p
  done : ∀ q, b.modules.get? q = some .done → cache.completedModules q = true
  known : (∃ stage, b.modules.get? p = some stage) ∨ cache.completedModules p = true
  reached : ∀ q stage, b.modules.get? q = some stage → Reaches (importsOf env files) p q
  ranked : ∃ rank : Text → Nat, ∀ u v, b.WaitsFor u v → rank u < rank v ∧ ∃ stage, b.modules.get? v = some stage

/-- How many more steps the build of a module takes at most. -/
def stageWork : ModuleStage → Nat
  | .reading => 4
  | .hashing _ => 3
  | .parsing _ => 2
  | .waiting _ => 1
  | .done => 0

def moduleWork (b : GraphBuild) (q : Text) : Nat := (b.modules.get? q).elim 5 stageWork

section OwnBuild

variable {cache cache' : DependencyHashCache} {b b' : GraphBuild} {p q : Text}

theorem moduleWork_set {new : ModuleStage} (x : Text) :
    moduleWork { b with modules := b.modules.set q new } x = if x = q then stageWork new else moduleWork b x := by
  unfold moduleWork
  rw [OrdMap.get?_set]
  split <;> rfl

theorem moduleWork_le (b : GraphBuild) (x : Text) : moduleWork b x ≤ 5 := by
  unfold moduleWork
  cases b.modules.get? x with
  | none => exact Nat.le_refl 5
  | some st => cases st <;> simp [stageWork]

theorem sum_moduleWork_le (b : GraphBuild) (mods : List Text) : (mods.map (moduleWork b)).sum ≤ 5 * mods.length := by
  induction mods with
  | nil => simp
  | cons x mods ih =>
    have hx := moduleWork_le b x
    simp only [List.map_cons, List.sum_cons, List.length_cons]
    omega

/-- The build of `q` went on, and no other has more left to do. -/
def LessWork (b b' : GraphBuild) (q : Text) : Prop :=
  moduleWork b' q < moduleWork b q ∧ ∀ x, moduleWork b' x ≤ moduleWork b x

theorem lessWork_set {old new : ModuleStage} (hq : b.modules.get? q = some old) (hlt : stageWork new < stageWork old) :
    LessWork b { b with modules := b.modules.set q new } q := by
  have hold : moduleWork b q = stageWork old := by rw [moduleWork, hq]; rfl
  refine ⟨by rw [moduleWork_set, if_pos rfl, hold]; exact hlt, fun x => ?_⟩
  rw [moduleWork_set]
  split
  · rename_i heq
    rw [heq, hold]
    exact hlt.le
  · exact Nat.le_refl _

theorem OwnBuild.setStage (h : OwnBuild env files cache b p) {old new : ModuleStage} (hq : b.modules.get? q = some old)
    (hnew : ∀ children, new ≠ .waiting children) (hmono : ∀ x, cache.completedModules x = true → cache'.completedModules x = true)
    (hdone : new = .done → cache'.completedModules q = true) :
    OwnBuild env files cache' { b with modules := b.modules.set q new } p where
  root := h.root
  done x hx := by
    rw [OrdMap.get?_set] at hx
    split at hx
    · rename_i heq
      exact heq ▸ hdone (Option.some.inj hx)
    · exact hmono x (h.done x hx)
  known := by
    refine h.known.imp (fun hseen => ?_) (hmono p)
    obtain ⟨st, hst⟩ := hseen
    by_cases hpq : p = q
    · exact ⟨new, by rw [OrdMap.get?_set, if_pos hpq]⟩
    · exact ⟨st, by rw [OrdMap.get?_set, if_neg hpq, hst]⟩
  reached x st hx := by
    rw [OrdMap.get?_set] at hx
    split at hx
    · rename_i heq
      exact heq ▸ h.reached q old hq
    · exact h.reached x st hx
  ranked := by
    obtain ⟨rank, hrank⟩ := h.ranked
    refine ⟨rank, fun u v hwaits => ?_⟩
    obtain ⟨children, hu, hv⟩ := hwaits
    rw [OrdMap.get?_set] at hu
    split at hu
    · exact absurd (Option.some.inj hu) (hnew children)
    · obtain ⟨hlt, st, hst⟩ := hrank u v ⟨children, hu, hv⟩
      refine ⟨hlt, ?_⟩
      by_cases hvq : v = q
      · exact ⟨new, by rw [OrdMap.get?_set, if_pos hvq]⟩
      · exact ⟨st, by rw [OrdMap.get?_set, if_neg hvq, hst]⟩

/-- The build once the imports of `q` have been gone through. -/
def afterVisit (cache : DependencyHashCache) (b : GraphBuild) (q : Text) (deps : List Text) : GraphBuild :=
  { b with
    modules := (visitDependencies cache.completedModules b.modules deps).1.set q
      (.waiting (visitDependencies cache.completedModules b.modules deps).2) }

theorem OwnBuild.visit (h : OwnBuild env files cache b p) (cache' : DependencyHashCache) {content : Text} {deps : List Text}
    (hq : b.modules.get? q = some (.parsing content)) (hdeps : env.localImports q (files q) = some deps)
    (hcomp : cache'.completedModules = cache.completedModules) :
    OwnBuild env files cache' (afterVisit cache b q deps) p ∧ LessWork b (afterVisit cache b q deps) q := by
  obtain ⟨hkeep, hback, hchild, -⟩ := visitDependencies_spec cache.completedModules deps b.modules
  unfold afterVisit
  generalize visitDependencies cache.completedModules b.modules deps = vc at *
  have hget : ∀ x, (vc.1.set q (ModuleStage.waiting vc.2)).get? x = if x = q then some (.waiting vc.2) else vc.1.get? x :=
    fun x => OrdMap.get?_set ..
  have hsome : ∀ x st, b.modules.get? x = some st → ∃ st', (vc.1.set q (ModuleStage.waiting vc.2)).get? x = some st' := by
    intro x st hx
    rw [hget]
    split
    · exact ⟨_, rfl⟩
    · exact ⟨st, hkeep x st hx⟩
  have hnew : moduleWork { b with modules := vc.1.set q (.waiting vc.2) } q = 1 := by
    rw [moduleWork, hget, if_pos rfl]
    rfl
  have htwo : moduleWork b q = 2 := by
    rw [moduleWork, hq]
    rfl
  refine ⟨⟨h.root, fun x hx => ?_, ?_, fun x st hx => ?_, ?_⟩, ?_, fun x => ?_⟩
  · rw [hget] at hx
    split at hx
    · cases hx
    · rw [hcomp]
      rcases hback x _ hx with hold | ⟨-, hr, -⟩
      · exact h.done x hold
      · cases hr
  · refine h.known.imp (fun hseen => ?_) fun hc => by rw [hcomp]; exact hc
    obtain ⟨st, hst⟩ := hseen
    exact hsome p st hst
  · rw [hget] at hx
    split at hx
    · rename_i heq
      exact heq ▸ h.reached q _ hq
    · rcases hback x st hx with hold | ⟨-, -, -, hm⟩
      · exact h.reached x st hold
      · exact (h.reached q _ hq).tail ((mem_importsOf hdeps x).mpr (hchild x hm).1)
  · obtain ⟨rank, hrank⟩ := h.ranked
    refine ⟨fun x => if x ∈ vc.2 then rank q + 1 else rank x, fun u v hwaits => ?_⟩
    obtain ⟨children, hu, hv⟩ := hwaits
    -- A new child waits for nothing and nobody waited for it before.
    have hold : ∀ x st, b.modules.get? x = some st → x ∉ vc.2 := fun x st hx hm => by
      cases (hchild x hm).2.1.symm.trans hx
    rw [hget] at hu
    split at hu
    · rename_i heq
      subst heq
      obtain rfl := ModuleStage.waiting.inj (Option.some.inj hu)
      have hvq : v ≠ u := fun heq => hold u _ hq (heq ▸ hv)
      refine ⟨?_, .reading, by rw [hget, if_neg hvq, (hchild v hv).2.2]⟩
      dsimp only
      rw [if_neg (hold u _ hq), if_pos hv]
      exact Nat.lt_succ_self _
    · rcases hback u _ hu with hu' | ⟨-, hr, -⟩
      · obtain ⟨hlt, st, hst⟩ := hrank u v ⟨children, hu', hv⟩
        dsimp only
        rw [if_neg (hold u _ hu'), if_neg (hold v st hst)]
        exact ⟨hlt, hsome v st hst⟩
      · cases hr
  · rw [hnew, htwo]
    exact Nat.lt_succ_self 1
  · by_cases hxq : x = q
    · rw [hxq, hnew, htwo]
      exact Nat.le_succ 1
    · simp only [moduleWork, hget, if_neg hxq]
      cases hx : b.modules.get? x with
      | some st => rw [hkeep x st hx]
      | none =>
        cases hv : vc.1.get? x with
        | none => exact Nat.le_refl _
        | some st =>
          rcases hback x st hv with hold | ⟨-, rfl, -⟩
          · cases hx.symm.trans hold
          · decide

theorem OwnBuild.advanced (h : OwnBuild env w.files w.cache b p) {event : ModuleEvent} (hinv : BuildInv env w.files w.cache b)
    (hadv : Advanced env w b q event w') (hev : event ≠ .readFails) :
    ∃ b', w'.running = some b' ∧ w'.files = w.files ∧ w'.buildQueue = w.buildQueue ∧ w'.results = w.results ∧
      OwnBuild env w.files w'.cache b' p ∧ LessWork b b' q ∧ ∃ stage, b.modules.get? q = some stage := by
  have hmono : ∀ x, w.cache.completedModules x = true → Function.update w.cache.completedModules q true x = true := by
    intro x hx
    by_cases hxq : x = q
    · rw [hxq, Function.update_self]
    · rw [Function.update_of_ne hxq, hx]
  have hself : Function.update w.cache.completedModules q true q = true := Function.update_self ..
  cases hadv with
  | read hq =>
    refine ⟨_, rfl, rfl, rfl, rfl, h.setStage hq (by simp) (fun _ hx => hx) (by simp), lessWork_set hq ?_, _, hq⟩
    exact Nat.lt_succ_self 3
  | readFails hq => exact absurd rfl hev
  | hash hq =>
    refine ⟨_, rfl, rfl, rfl, rfl, h.setStage hq (by simp) (fun _ hx => hx) (by simp), lessWork_set hq ?_, _, hq⟩
    exact Nat.lt_succ_self 2
  | parse hq =>
    obtain ⟨rfl, -⟩ := hinv.stages q _ hq
    unfold HashWorld.addImports
    split
    · refine ⟨_, rfl, rfl, rfl, rfl, h.setStage hq (by simp) hmono fun _ => hself, lessWork_set hq ?_, _, hq⟩
      exact Nat.succ_pos 1
    · rename_i deps hdeps
      obtain ⟨hown, hless⟩ := h.visit { w.cache with graph := w.cache.graph.addModule q deps } hq hdeps rfl
      exact ⟨_, rfl, rfl, rfl, rfl, hown, hless, _, hq⟩
  | complete hq hall =>
    refine ⟨_, rfl, rfl, rfl, rfl, h.setStage hq (by simp) hmono fun _ => hself, lessWork_set hq ?_, _, hq⟩
    exact Nat.succ_pos 0

theorem OwnBuild.enabled (h : OwnBuild env w.files w.cache b p) (hb : w.running = some b) (hf : b.finished = false) :
    ∃ a w', OwnStep env w a w' := by
  classical
  obtain ⟨rank, hrank⟩ := h.ranked
  have hroot : b.InProgress b.root := by
    cases hr : b.modules.get? b.root with
    | none => simp [GraphBuild.finished, OrdMap.contains, hr] at hf
    | some st =>
      refine ⟨st, hr, ?_⟩
      rintro rfl
      simp [GraphBuild.finished, GraphBuild.isDone, OrdMap.contains, hr] at hf
  have hkeys : ∀ x, b.InProgress x → x ∈ b.modules.keys.toFinset.filter b.InProgress := by
    rintro x ⟨st, hst, hne⟩
    refine Finset.mem_filter.mpr ⟨List.mem_toFinset.mpr ?_, st, hst, hne⟩
    rw [← OrdMap.contains_iff, OrdMap.contains, hst]
    rfl
  obtain ⟨q, hq, hmax⟩ := Finset.exists_max_image _ rank ⟨_, hkeys _ hroot⟩
  obtain ⟨st, hst, hne⟩ := (Finset.mem_filter.mp hq).2
  have hstep : ∀ event, w.step env (.advance q event) = w.stepModule env b q st event := by
    intro event
    simp only [HashWorld.step, hb, Option.bind_some, hst]
  cases st with
  | reading => exact ⟨.advance q .read, _, .inr (.inr ⟨q, .read, rfl, by simp⟩), hstep .read⟩
  | hashing content => exact ⟨.advance q .hash, _, .inr (.inr ⟨q, .hash, rfl, by simp⟩), hstep .hash⟩
  | parsing content => exact ⟨.advance q .parse, _, .inr (.inr ⟨q, .parse, rfl, by simp⟩), hstep .parse⟩
  | waiting children =>
    have hall : children.all b.isDone = true := by
      refine List.all_eq_true.mpr fun v hv => ?_
      obtain ⟨hlt, st', hst'⟩ := hrank q v ⟨children, hst, hv⟩
      by_contra hnot
      have hprog : b.InProgress v := ⟨st', hst', fun heq => hnot (by simp [GraphBuild.isDone, hst', heq])⟩
      exact absurd (hmax v (hkeys v hprog)) (Nat.not_le.mpr hlt)
    exact ⟨.advance q .complete, _, .inr (.inr ⟨q, .complete, rfl, by simp⟩), (hstep .complete).trans (if_pos hall)⟩
  | done => exact absurd rfl hne

end OwnBuild

/-! ## The whole call -/

/-- Where a call that began in `w₀` is. -/
inductive OwnPhase (env : DependencyEnv) (w₀ : HashWorld) (p : Text) (w : HashWorld) : Prop
  | queued (hq : w.buildQueue = [p]) (hr : w.running = none) (hres : w.results = w₀.results)
  | building (b : GraphBuild) (hq : w.buildQueue = []) (hb : w.running = some b) (hres : w.results = w₀.results)
      (hown : OwnBuild env w.files w.cache b p)
  | returned (hash : Text) (hq : w.buildQueue = []) (hr : w.running = none)
      (hres : w.results = w₀.results ++ [(p, hash)]) (hfresh : FreshHash env w.files p hash)

/-- How many steps the call has left at most. -/
def workLeft (mods : List Text) (w : HashWorld) : Nat :=
  match w.running with
  | some b => 1 + (mods.map (moduleWork b)).sum
  | none => if w.buildQueue = [] then 0 else 5 * mods.length + 2

structure OwnInv (env : DependencyEnv) (w₀ : HashWorld) (p : Text) (w : HashWorld) : Prop where
  inv : HashInv env w
  files : w.files = w₀.files
  phase : OwnPhase env w₀ p w

section OwnInv

variable {w₀ : HashWorld} {p : Text}

theorem ownBuild_start (root : Text) (rest : List Text) (b : GraphBuild)
    (hb : (w.startBuild root rest).running = some b) : OwnBuild env w.files w.cache b root := by
  obtain rfl := Option.some.inj hb
  by_cases hc : w.cache.completedModules root = true
  · simp only [hc, if_true]
    refine ⟨rfl, fun q hq => (nomatch hq), .inr hc, fun q st hq => (nomatch hq), fun _ => 0, ?_⟩
    rintro u v ⟨children, hu, -⟩
    cases hu
  · simp only [hc]
    have hget : ∀ q st, (OrdMap.empty.set root ModuleStage.reading).get? q = some st → q = root ∧ st = .reading := by
      intro q st hq
      rw [OrdMap.get?_set] at hq
      split at hq
      · rename_i heq
        exact ⟨heq, (Option.some.inj hq).symm⟩
      · cases hq
    refine ⟨rfl, fun q hq => ?_, .inl ⟨.reading, ?_⟩, fun q st hq => ?_, fun _ => 0, ?_⟩
    · cases (hget q _ hq).2
    · exact (OrdMap.get?_set ..).trans (if_pos rfl)
    · exact (hget q st hq).1 ▸ .refl
    · rintro u v ⟨children, hu, -⟩
      cases (hget u _ hu).2

theorem OwnInv.step (h : OwnInv env w₀ p w) {a : HashAction} (hs : OwnStep env w a w') :
    OwnInv env w₀ p w' ∧ ∀ mods : List Text, (∀ x, Reaches (importsOf env w₀.files) p x → x ∈ mods) →
      workLeft mods w' < workLeft mods w := by
  obtain ⟨ha, hs⟩ := hs
  have hok : Undisturbed w a := by
    rcases ha with rfl | rfl | ⟨q, event, rfl, hev⟩
    · trivial
    · trivial
    · cases event with
      | readFails => exact absurd rfl hev
      | read => trivial
      | hash => trivial
      | parse => trivial
      | complete => trivial
  have hinv' := h.inv.step hok hs
  rcases ha with rfl | rfl | ⟨q, event, rfl, hev⟩
  · dsimp only [HashWorld.step] at hs
    split at hs
    · rename_i root rest hnone hq
      obtain rfl := Option.some.inj hs
      cases h.phase with
      | queued hq' hr hres =>
        obtain ⟨rfl, rfl⟩ := List.cons.inj (hq.symm.trans hq')
        refine ⟨⟨hinv', h.files, .building _ rfl rfl hres (ownBuild_start root [] _ rfl)⟩, fun mods _ => ?_⟩
        have hsum := sum_moduleWork_le ⟨root, if w.cache.completedModules root then .empty else OrdMap.empty.set root .reading⟩
          mods
        simp only [workLeft, HashWorld.startBuild, hr, hq]
        simp
        omega
      | building b hq' hb => cases hnone.symm.trans hb
      | returned hash hq' => cases hq.symm.trans hq'
    · cases hs
  · obtain ⟨b, hb, hs⟩ := Option.bind_eq_some_iff.mp hs
    split at hs
    · rename_i hf
      obtain rfl := Option.some.inj hs
      cases h.phase with
      | queued hq hr => cases hr.symm.trans hb
      | building b' hq hb' hres hown =>
        obtain rfl := Option.some.inj (hb.symm.trans hb')
        have hidle := (h.inv.build b hb).finished_idle hf
        have hclosed : ∀ q, w.cache.completedModules q = true → Followed env w.files w.cache (fun _ => False) q := by
          intro q hq
          have hfol := h.inv.completed q hq
          rw [inProgress_running hb] at hfol
          exact hfol.mono fun d hd => absurd hd (hidle d)
        have hroot : w.cache.completedModules p = true := by
          rcases hown.known with ⟨st, hst⟩ | hc
          · obtain rfl : st = .done := by
              by_contra hne
              exact hidle p ⟨st, hst, hne⟩
            exact hown.done p hst
          · exact hc
        refine ⟨⟨hinv', h.files, .returned (w.cache.depsHash env p) hq rfl ?_ (depsHash_fresh hclosed hroot)⟩,
          fun mods _ => ?_⟩
        · show w.results ++ [(b.root, w.cache.depsHash env b.root)] = _
          rw [hres, hown.root]
        · simp only [workLeft, hb, hq, if_true]
          exact Nat.lt_of_lt_of_le Nat.zero_lt_one (Nat.le_add_right ..)
      | returned hash hq hr => cases hr.symm.trans hb
    · cases hs
  · obtain ⟨b, hb, hadv⟩ := advanced_of_step hs
    cases h.phase with
    | queued hq hr => cases hr.symm.trans hb
    | building b' hq hb' hres hown =>
      obtain rfl := Option.some.inj (hb.symm.trans hb')
      obtain ⟨b₁, hb₁, hf, hq₁, hres₁, hown₁, ⟨hlt, hle⟩, st, hst⟩ := hown.advanced (h.inv.build b hb) hadv hev
      refine ⟨⟨hinv', hf.trans h.files, .building b₁ (hq₁.trans hq) hb₁ (hres₁.trans hres) (hf ▸ hown₁)⟩,
        fun mods hmods => ?_⟩
      simp only [workLeft, hb, hb₁]
      have hq := hmods q (h.files ▸ hown.reached q st hst)
      have hsum := List.sum_lt_sum (moduleWork b₁) (moduleWork b) (fun x _ => hle x) ⟨q, hq, hlt⟩
      omega
    | returned hash hq hr => cases hr.symm.trans hb

theorem own_run (h : HashInv env w₀) (hidle : w₀.Idle) {es : List HashAction} (hr : Run (OwnStep env) (w₀.called p) es w') :
    OwnInv env w₀ p w' ∧ ∀ mods : List Text, (∀ x, Reaches (importsOf env w₀.files) p x → x ∈ mods) →
      es.length + workLeft mods w' ≤ 5 * mods.length + 2 := by
  have hq : (w₀.called p).buildQueue = [p] := by simp [HashWorld.called, hidle.2]
  induction hr with
  | nil =>
    refine ⟨⟨⟨h.mirror, h.completed, h.build⟩, rfl, .queued hq hidle.1 rfl⟩, fun mods _ => ?_⟩
    have hr : (w₀.called p).running = none := hidle.1
    simp only [workLeft, hr, hq]
    simp
  | snoc _ hs ih =>
    obtain ⟨hinv, hwork⟩ := ih
    obtain ⟨hinv', hlt⟩ := hinv.step hs
    refine ⟨hinv', fun mods hmods => ?_⟩
    have h1 := hwork mods hmods
    have h2 := hlt mods hmods
    simp only [List.length_append, List.length_singleton]
    omega

theorem returns_fresh (h : HashInv env w₀) (hidle : w₀.Idle) {hash : Text} (hr : Returns env w₀ p hash) :
    FreshHash env w₀.files p hash := by
  obtain ⟨es, w', hrun, hres⟩ := hr
  obtain ⟨hinv, -⟩ := own_run h hidle hrun
  cases hinv.phase with
  | queued _ _ hsame => simp [hres] at hsame
  | building _ _ _ hsame => simp [hres] at hsame
  | returned hash' _ _ hres' hfresh =>
    obtain rfl : hash = hash' := by simpa using hres.symm.trans hres'
    exact hinv.files ▸ hfresh

theorem terminates (h : HashInv env w₀) (hidle : w₀.Idle) (p : Text) : Terminates env w₀ p := by
  intro mods hmods es w' hrun
  obtain ⟨hinv, hwork⟩ := own_run h hidle hrun
  refine ⟨Nat.le_trans (Nat.le_add_right ..) (hwork mods hmods), ?_⟩
  cases hinv.phase with
  | queued hq hr =>
    refine .inr ⟨.build, w'.startBuild p [], .inl rfl, ?_⟩
    simp only [HashWorld.step, hr, hq]
  | building b hq hb hres hown =>
    by_cases hf : b.finished = true
    · refine .inr ⟨.finish, { w' with running := none, results := w'.results ++ [(b.root, w'.cache.depsHash env b.root)] },
        .inr (.inl rfl), ?_⟩
      simp only [HashWorld.step, hb, Option.bind_some, hf, if_true]
    · exact .inr (hown.enabled hb (Bool.eq_false_iff.mpr hf))
  | returned hash _ _ hres => exact .inl ⟨hash, hres⟩

end OwnInv

theorem serves_fresh {steps : HashWorld → HashAction → HashWorld → Prop}
    (hsteps : ∀ w a w', steps w a w' → Undisturbed w a ∧ w.step env a = some w') : ServesFresh env steps := by
  intro files es w p hrun hidle
  have hinv : HashInv env w := hrun.invariant (HashInv env) (hashInv_initial env files) fun w a w' h hs =>
    h.step (hsteps w a w' hs).1 (hsteps w a w' hs).2
  have hinit := hashInv_initial env w.files
  refine ⟨terminates hinv hidle p, terminates hinit ⟨rfl, rfl⟩ p, fun hash fresh hr hr' => ?_⟩
  exact (returns_fresh hinv hidle hr).unique (returns_fresh hinit ⟨rfl, rfl⟩ hr')

/-! ## Edits -/

def ReadsSucceed (env : DependencyEnv) (w : HashWorld) (a : HashAction) (w' : HashWorld) : Prop :=
  (∀ p, a ≠ .advance p .readFails) ∧ w.step env a = some w'

/-- Where no edit goes behind the back of a build, the cached hash is the one a fresh cache gives. -/
theorem cached_hash_is_fresh (env : DependencyEnv) :
    ServesFresh env fun w a w' => Undisturbed w a ∧ ReadsSucceed env w a w' :=
  serves_fresh fun _ _ _ h => ⟨h.1, h.2.2⟩

/-- The text is its own digest, and the text "i" imports the module m. -/
def oneImport : DependencyEnv where
  computeHash := id
  extractImports content := if content = .of "i" then some [.of "file:///m"] else some []
  projectDir := []

def twoFiles (p : Text) : Text := if p = .of "/r" then .of "i" else .of "x"

/-- An edit between two calls: the second call reads the edited module again. -/
theorem cached_hash_is_fresh_after_edit : ∃ es w,
    .edit (.of "/m") (.of "y") ∈ es ∧
    Run (fun w a w' => Undisturbed w a ∧ ReadsSucceed oneImport w a w') (.initial twoFiles) es w ∧ w.Idle ∧
    ∀ hash fresh, Returns oneImport w (.of "/r") hash → Returns oneImport (.initial w.files) (.of "/r") fresh → hash = fresh := by
  have hrun : Run (fun w a w' => Undisturbed w a ∧ ReadsSucceed oneImport w a w') (.initial twoFiles)
      [.call (.of "/m"), .build, .advance (.of "/m") .read, .advance (.of "/m") .hash, .advance (.of "/m") .parse,
        .advance (.of "/m") .complete, .finish, .edit (.of "/m") (.of "y")] _ :=
    .cons ⟨trivial, nofun, rfl⟩ (.cons ⟨trivial, nofun, rfl⟩ (.cons ⟨trivial, nofun, rfl⟩ (.cons ⟨trivial, nofun, rfl⟩
      (.cons ⟨trivial, nofun, rfl⟩ (.cons ⟨trivial, nofun, rfl⟩ (.cons ⟨trivial, nofun, rfl⟩
        (.cons ⟨fun b hb => (nomatch hb), nofun, rfl⟩ .nil)))))))
  exact ⟨_, _, by simp, hrun, ⟨rfl, rfl⟩, (cached_hash_is_fresh oneImport _ _ _ (.of "/r") hrun ⟨rfl, rfl⟩).2.2⟩

theorem own_advance {q : Text} {event : ModuleEvent} {es : List HashAction} {w'' : HashWorld} (hev : event ≠ .readFails)
    (hs : w.step env (.advance q event) = some w') (hr : Run (OwnStep env) w' es w'') :
    Run (OwnStep env) w (.advance q event :: es) w'' :=
  .cons ⟨.inr (.inr ⟨q, event, rfl, hev⟩), hs⟩ hr

/-- The text read before an edit is recorded after it. -/
theorem edit_during_read_sticks : ¬ ServesFresh oneImport (ReadsSucceed oneImport) := by
  intro h
  have hrun : Run (ReadsSucceed oneImport) (.initial twoFiles)
      [.call (.of "/m"), .build, .advance (.of "/m") .read, .edit (.of "/m") (.of "y"), .advance (.of "/m") .hash,
        .advance (.of "/m") .parse, .advance (.of "/m") .complete, .finish] _ :=
    .cons ⟨nofun, rfl⟩ (.cons ⟨nofun, rfl⟩ (.cons ⟨nofun, rfl⟩ (.cons ⟨nofun, rfl⟩ (.cons ⟨nofun, rfl⟩ (.cons ⟨nofun, rfl⟩
      (.cons ⟨nofun, rfl⟩ (.cons ⟨nofun, rfl⟩ .nil)))))))
  have heq := (h _ _ _ (.of "/m") hrun ⟨rfl, rfl⟩).2.2 (.of "x") (.of "y")
    ⟨[.build, .finish], _, .cons ⟨.inl rfl, rfl⟩ (.cons ⟨.inr (.inl rfl), rfl⟩ .nil), rfl⟩
    ⟨[.build, .advance (.of "/m") .read, .advance (.of "/m") .hash, .advance (.of "/m") .parse,
        .advance (.of "/m") .complete, .finish], _,
      .cons ⟨.inl rfl, rfl⟩ (own_advance nofun rfl (own_advance nofun rfl (own_advance nofun rfl (own_advance nofun rfl
        (.cons ⟨.inr (.inl rfl), rfl⟩ .nil))))), rfl⟩
  exact absurd heq (by decide)

/-! ## Failed reads -/

def NoEdits (env : DependencyEnv) (w : HashWorld) (a : HashAction) (w' : HashWorld) : Prop :=
  (∀ x content, a ≠ .edit x content) ∧ (∀ p, a = .call p → w.Idle) ∧ w.step env a = some w'

/-- Where only the root of a call fails to be read, a failure does not outlast its call. -/
theorem failed_read_is_forgotten (env : DependencyEnv) :
    ServesFresh env fun w a w' => Undisturbed w a ∧ NoEdits env w a w' :=
  serves_fresh fun _ _ _ h => ⟨h.1, h.2.2.2⟩

/-- A call whose root cannot be read: the next call reads it again. -/
theorem failed_read_is_forgotten_root : ∃ es w,
    .advance (.of "/r") .readFails ∈ es ∧
    Run (fun w a w' => Undisturbed w a ∧ NoEdits oneImport w a w') (.initial twoFiles) es w ∧ w.Idle ∧
    ∀ hash fresh, Returns oneImport w (.of "/r") hash → Returns oneImport (.initial w.files) (.of "/r") fresh → hash = fresh := by
  have hrun : Run (fun w a w' => Undisturbed w a ∧ NoEdits oneImport w a w') (.initial twoFiles)
      [.call (.of "/r"), .build, .advance (.of "/r") .readFails, .finish] _ :=
    .cons ⟨trivial, nofun, fun _ _ => ⟨rfl, rfl⟩, rfl⟩ (.cons ⟨trivial, nofun, nofun, rfl⟩
      (.cons ⟨fun b hb => by obtain rfl := Option.some.inj hb; rfl, nofun, nofun, rfl⟩
        (.cons ⟨trivial, nofun, nofun, rfl⟩ .nil)))
  exact ⟨_, _, by simp, hrun, ⟨rfl, rfl⟩, (failed_read_is_forgotten oneImport _ _ _ (.of "/r") hrun ⟨rfl, rfl⟩).2.2⟩

/-- The importer of a module that could not be read is completed, and the module is not read again. -/
theorem failed_read_sticks : ¬ ServesFresh oneImport (NoEdits oneImport) := by
  intro h
  have hrun : Run (NoEdits oneImport) (.initial twoFiles)
      [.call (.of "/r"), .build, .advance (.of "/r") .read, .advance (.of "/r") .hash, .advance (.of "/r") .parse,
        .advance (.of "/m") .readFails, .advance (.of "/r") .complete, .finish] _ :=
    .cons ⟨nofun, fun _ _ => ⟨rfl, rfl⟩, rfl⟩ (.cons ⟨nofun, nofun, rfl⟩ (.cons ⟨nofun, nofun, rfl⟩
      (.cons ⟨nofun, nofun, rfl⟩ (.cons ⟨nofun, nofun, rfl⟩ (.cons ⟨nofun, nofun, rfl⟩ (.cons ⟨nofun, nofun, rfl⟩
        (.cons ⟨nofun, nofun, rfl⟩ .nil)))))))
  have heq := (h _ _ _ (.of "/r") hrun ⟨rfl, rfl⟩).2.2 (.of "i") (.of "x:i")
    ⟨[.build, .finish], _, .cons ⟨.inl rfl, rfl⟩ (.cons ⟨.inr (.inl rfl), rfl⟩ .nil), rfl⟩
    ⟨[.build, .advance (.of "/r") .read, .advance (.of "/r") .hash, .advance (.of "/r") .parse, .advance (.of "/m") .read,
        .advance (.of "/m") .hash, .advance (.of "/m") .parse, .advance (.of "/m") .complete, .advance (.of "/r") .complete,
        .finish], _,
      .cons ⟨.inl rfl, rfl⟩ (own_advance nofun rfl (own_advance nofun rfl (own_advance nofun rfl (own_advance nofun rfl
        (own_advance nofun rfl (own_advance nofun rfl (own_advance nofun rfl (own_advance nofun rfl
          (.cons ⟨.inr (.inl rfl), rfl⟩ .nil))))))))), rfl⟩
  exact absurd heq (by decide)

end Veryfront.Cache
