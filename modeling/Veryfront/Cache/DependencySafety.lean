import Veryfront.Cache.DependencyGraph
import Veryfront.Lib.Runs

/-!
# A cached dependency hash is a fresh one

A completed module has its text hashed and its imports in the graph, and they are completed or being built.
This holds as long as no edit and no failed read goes behind the back of a build: an edit must not touch a
module that the running build has visited, and only the root of a build may fail to be read. Then a call
finds in the cache what it would have read.
-/

namespace Veryfront.Cache

open Lib

/-! ## The graph -/

namespace DependencyGraph

def Mirror (g : DependencyGraph) : Prop := ∀ u v, v ∈ g.directDependents u ↔ u ∈ g.getDirectDependencies v

@[simp] theorem getDirectDependencies_addModule (g : DependencyGraph) (p : Text) (deps : List Text) (q : Text) :
    (g.addModule p deps).getDirectDependencies q = if q = p then appendNew [] deps else g.getDirectDependencies q := by
  unfold getDirectDependencies addModule SetIndex.members
  rw [OrdMap.get?_set]
  split <;> rfl

@[simp] theorem getDirectDependencies_removeModule (g : DependencyGraph) (p q : Text) :
    (g.removeModule p).getDirectDependencies q = if q = p then [] else g.getDirectDependencies q := by
  unfold getDirectDependencies removeModule SetIndex.members
  rw [OrdMap.get?_erase]
  split <;> rfl

theorem Mirror.empty : Mirror .empty := fun u v => by
  simp [directDependents, getDirectDependencies, SetIndex.members, DependencyGraph.empty]

variable {g : DependencyGraph}

theorem Mirror.addModule (h : g.Mirror) (p : Text) (deps : List Text) :
    (g.addModule p deps).Mirror := by
  intro u v
  have hv : v ∈ (g.addModule p deps).directDependents u ↔ (v ∈ g.directDependents u ∧
      ¬ (u ∈ (g.getDirectDependencies p).filter (· ∉ appendNew [] deps) ∧ v = p)) ∨ (u ∈ appendNew [] deps ∧ v = p) :=
    (SetIndex.mem_foldl_add p _ _ u v).trans
      (or_congr_left (SetIndex.mem_foldl_remove (fun index k => SetIndex.mem_discard index k p) _ _ u v))
  rw [hv, getDirectDependencies_addModule, h u v]
  simp only [List.mem_filter, decide_eq_true_eq]
  split
  · rename_i heq
    subst heq
    tauto
  · rename_i hne
    tauto

theorem Mirror.removeModule (h : g.Mirror) (p : Text) : (g.removeModule p).Mirror := by
  intro u v
  have hv : v ∈ (g.removeModule p).directDependents u ↔
      v ∈ g.directDependents u ∧ ¬ (u ∈ g.getDirectDependencies p ∧ v = p) :=
    SetIndex.mem_foldl_remove (fun index k => SetIndex.mem_remove index k p) _ _ u v
  rw [hv, getDirectDependencies_removeModule, h u v]
  split
  · rename_i heq
    subst heq
    simp
  · rename_i hne
    tauto

/-! ## What is reached in the graph -/

theorem mem_vertices_of_mem {edges : OrdMap Text (List Text)} {u v : Text} (h : v ∈ SetIndex.members edges u) :
    v ∈ vertices edges := by
  unfold SetIndex.members at h
  cases hu : edges.get? u with
  | none =>
    rw [hu] at h
    cases h
  | some l =>
    rw [hu] at h
    exact List.mem_flatMap.mpr ⟨(u, l), (OrdMap.get?_eq_some _ _ _).mp hu, List.mem_cons_of_mem _ h⟩

theorem mem_collect_edges (edges : OrdMap Text (List Text)) (p x : Text) :
    x ∈ collect (SetIndex.members edges) ((vertices edges).length + 2) [] p ↔
      Reaches (SetIndex.members edges) p x :=
  mem_collect (p :: vertices edges) (fun _ _ _ h => List.mem_cons_of_mem _ (mem_vertices_of_mem h))
    (by simp) List.mem_cons_self

theorem mem_getTransitiveDependencies (g : DependencyGraph) (p x : Text) :
    x ∈ p :: g.getTransitiveDependencies p ↔ Reaches g.getDirectDependencies p x := by
  have hmem := mem_collect_edges g.dependencies p x
  by_cases hx : x = p
  · subst hx
    simp only [List.mem_cons_self, true_iff]
    exact .refl
  · rw [List.mem_cons, or_iff_right hx, getTransitiveDependencies, List.mem_filter]
    exact (and_iff_left (by simpa using hx)).trans hmem

theorem nodup_getTransitiveDependencies (g : DependencyGraph) (p : Text) :
    (p :: g.getTransitiveDependencies p).Nodup := by
  rw [List.nodup_cons, getTransitiveDependencies]
  exact ⟨by simp, (collect_nodup _ _ _ List.nodup_nil).filter _⟩

theorem mem_getDependents (h : g.Mirror) (x y : Text) :
    y ∈ x :: g.getDependents x ↔ Reaches g.getDirectDependencies y x := by
  have hmem := mem_collect_edges g.dependents x y
  have hswap : Reaches (SetIndex.members g.dependents) x y ↔ Reaches g.getDirectDependencies y x := by
    unfold Reaches
    rw [← Relation.reflTransGen_swap]
    have hrel : Function.swap (fun u v => v ∈ SetIndex.members g.dependents u) =
        fun u v => v ∈ g.getDirectDependencies u := by
      funext u v
      exact propext (h v u)
    rw [hrel]
  rw [← hswap]
  by_cases hy : y = x
  · subst hy
    simp only [List.mem_cons_self, true_iff]
    exact .refl
  · rw [List.mem_cons, or_iff_right hy, getDependents, List.mem_filter]
    exact (and_iff_left (by simpa using hy)).trans hmem

end DependencyGraph

/-! ## Invalidation -/

namespace DependencyHashCache

variable {cache : DependencyHashCache}

theorem mem_modulesToInvalidate (h : cache.graph.Mirror) (x y : Text) :
    y ∈ cache.modulesToInvalidate [x] ↔ Reaches cache.graph.getDirectDependencies y x := by
  rw [← DependencyGraph.mem_getDependents h]
  exact mem_appendNew.trans (or_iff_right List.not_mem_nil)

/-- What is left once the modules in `zs` are evicted. -/
structure Evicted (zs : List Text) (cache cache' : DependencyHashCache) : Prop where
  completed : ∀ p, cache'.completedModules p = true ↔ p ∉ zs ∧ cache.completedModules p = true
  hashes : ∀ p, p ∉ zs → cache'.contentHashes p = cache.contentHashes p
  edges : ∀ p, p ∉ zs → cache'.graph.getDirectDependencies p = cache.graph.getDirectDependencies p
  mirror : cache.graph.Mirror → cache'.graph.Mirror

theorem evicted_foldl (zs : List Text) (cache : DependencyHashCache) : Evicted zs cache (zs.foldl evict cache) := by
  induction zs generalizing cache with
  | nil => exact ⟨fun p => by simp, fun _ _ => rfl, fun _ _ => rfl, id⟩
  | cons z zs ih =>
    have h := ih (cache.evict z)
    rw [List.foldl_cons]
    refine ⟨fun p => ?_, fun p hp => ?_, fun p hp => ?_, fun hm => h.mirror (hm.removeModule z)⟩
    · rw [h.completed, evict, List.mem_cons]
      by_cases hz : p = z
      · simp [hz]
      · simp [hz]
    · obtain ⟨hz, hzs⟩ := not_or.mp (mt List.mem_cons.mpr hp)
      rw [h.hashes p hzs]
      exact Function.update_of_ne hz ..
    · obtain ⟨hz, hzs⟩ := not_or.mp (mt List.mem_cons.mpr hp)
      rw [h.edges p hzs]
      exact (DependencyGraph.getDirectDependencies_removeModule ..).trans (if_neg hz)

end DependencyHashCache

/-! ## What a build maintains -/

/-- The imports of a module as the graph holds them. -/
def importsOf (env : DependencyEnv) (files : Text → Text) (p : Text) : List Text :=
  appendNew [] ((env.localImports p (files p)).getD [])

def GraphBuild.InProgress (b : GraphBuild) (p : Text) : Prop :=
  ∃ stage, b.modules.get? p = some stage ∧ stage ≠ .done

def GraphBuild.WaitsFor (b : GraphBuild) (p q : Text) : Prop :=
  ∃ children, b.modules.get? p = some (.waiting children) ∧ q ∈ children

/-- The cache has what a build of `p` finds, and the imports of `p` are completed or in progress. -/
structure Followed (env : DependencyEnv) (files : Text → Text) (cache : DependencyHashCache) (inProgress : Text → Prop)
    (p : Text) : Prop where
  hashed : cache.contentHashes p = some (env.computeHash (files p))
  edges : cache.graph.getDirectDependencies p = importsOf env files p
  covered : ∀ d ∈ importsOf env files p, cache.completedModules d = true ∨ inProgress d

def StageHolds (env : DependencyEnv) (files : Text → Text) (cache : DependencyHashCache) (inProgress : Text → Prop)
    (p : Text) : ModuleStage → Prop
  | .reading => cache.completedModules p = false
  | .hashing content => content = files p
  | .parsing content => content = files p ∧ cache.contentHashes p = some (env.computeHash content)
  | .waiting _ => Followed env files cache inProgress p
  | .done => cache.completedModules p = true ∨ ∀ q, ¬ inProgress q

/-- `first`: a build whose root is still being read has visited nothing else, and needs nothing of itself. -/
structure BuildInv (env : DependencyEnv) (files : Text → Text) (cache : DependencyHashCache) (b : GraphBuild) : Prop where
  stages : ∀ p stage, b.modules.get? p = some stage → StageHolds env files cache b.InProgress p stage
  chain : ∀ q, b.InProgress q → Relation.ReflTransGen b.WaitsFor b.root q
  first : b.modules.get? b.root = some .reading → b.modules = OrdMap.empty.set b.root .reading ∧
    ∀ p, cache.completedModules p = true → Followed env files cache (fun _ => False) p

def HashWorld.InProgress (w : HashWorld) (p : Text) : Prop := ∃ b, w.running = some b ∧ b.InProgress p

structure HashInv (env : DependencyEnv) (w : HashWorld) : Prop where
  mirror : w.cache.graph.Mirror
  completed : ∀ p, w.cache.completedModules p = true → Followed env w.files w.cache w.InProgress p
  build : ∀ b, w.running = some b → BuildInv env w.files w.cache b

/-- An edit is behind the back of the running build if the build has visited a module that imports the edited
one, or the edited one itself, unless this is a root whose text has not come yet. Only roots may fail to be read. -/
def Undisturbed (w : HashWorld) : HashAction → Prop
  | .edit x _ => ∀ b, w.running = some b → b.finished = true ∨ ∀ q, b.modules.contains q = true →
      q ∉ w.cache.graph.getDependents x ∧ (q = x → b.modules.get? q = some .reading)
  | .advance p .readFails => ∀ b, w.running = some b → p = b.root
  | _ => True

section Preservation

variable {env : DependencyEnv} {files : Text → Text} {cache : DependencyHashCache} {b : GraphBuild} {w w' : HashWorld}

variable {p : Text}

variable {P : Text → Prop}

theorem Followed.mono {Q : Text → Prop} (h : Followed env files cache P p)
    (hPQ : ∀ d, P d → cache.completedModules d = true ∨ Q d) : Followed env files cache Q p :=
  ⟨h.hashed, h.edges, fun d hd => (h.covered d hd).elim .inl (hPQ d)⟩

theorem BuildInv.finished_idle (h : BuildInv env files cache b) (hf : b.finished = true) (q : Text) : ¬ b.InProgress q := by
  intro hq
  have hroot : ∀ stage, b.modules.get? b.root = some stage → stage = .done := by
    intro stage hs
    have hc : b.modules.contains b.root = true := by rw [OrdMap.contains, hs]; rfl
    simp only [GraphBuild.finished, GraphBuild.isDone, hc, hs, Bool.not_true, Bool.false_or, decide_eq_true_eq,
      Option.some.injEq] at hf
    exact hf
  rcases (h.chain q hq).cases_head with rfl | ⟨m, ⟨children, hm, -⟩, -⟩
  · obtain ⟨stage, hs, hne⟩ := hq
    exact hne (hroot stage hs)
  · cases hroot _ hm

variable {stage : ModuleStage}

theorem BuildInv.only_root (h : BuildInv env files cache b) (hr : b.modules.get? b.root = some .reading)
    (hp : b.modules.get? p = some stage) : p = b.root ∧ stage = .reading := by
  rw [(h.first hr).1, OrdMap.get?_set] at hp
  split at hp
  · rename_i heq
    exact ⟨heq, (Option.some.inj hp).symm⟩
  · cases hp

theorem BuildInv.root_visited (h : BuildInv env files cache b) (hp : b.InProgress p) :
    ∃ stage, b.modules.get? b.root = some stage := by
  rcases (h.chain p hp).cases_head with rfl | ⟨m, ⟨children, hm, -⟩, -⟩
  · exact ⟨_, hp.choose_spec.1⟩
  · exact ⟨_, hm⟩

theorem inProgress_set {q : Text} :
    ({ b with modules := b.modules.set p stage } : GraphBuild).InProgress q ↔
      if q = p then stage ≠ .done else b.InProgress q := by
  unfold GraphBuild.InProgress
  rw [OrdMap.get?_set]
  split
  · constructor
    · rintro ⟨st, hst, hne⟩
      exact Option.some.inj hst ▸ hne
    · exact fun hne => ⟨stage, rfl, hne⟩
  · rfl

theorem Followed.update {cache' : DependencyHashCache} {Q : Text → Prop} {q : Text} (h : Followed env files cache P q)
    (hh : cache'.contentHashes q = cache.contentHashes q)
    (he : cache'.graph.getDirectDependencies q = cache.graph.getDirectDependencies q)
    (hcov : ∀ d, cache.completedModules d = true ∨ P d → cache'.completedModules d = true ∨ Q d) :
    Followed env files cache' Q q :=
  ⟨hh.trans h.hashed, he.trans h.edges, fun d hd => hcov d (h.covered d hd)⟩

theorem StageHolds.update {cache' : DependencyHashCache} {Q : Text → Prop} {q : Text}
    (h : StageHolds env files cache P q stage) (hh : cache'.contentHashes q = cache.contentHashes q)
    (he : cache'.graph.getDirectDependencies q = cache.graph.getDirectDependencies q)
    (hcomp : cache'.completedModules q = cache.completedModules q)
    (hcov : ∀ d, cache.completedModules d = true ∨ P d → cache'.completedModules d = true ∨ Q d) (hbusy : ∃ d, P d) :
    StageHolds env files cache' Q q stage := by
  cases stage with
  | reading => exact hcomp.trans h
  | hashing content => exact h
  | parsing content => exact ⟨h.1, hh.trans h.2⟩
  | waiting children => exact Followed.update h hh he hcov
  | done =>
    obtain ⟨d, hd⟩ := hbusy
    exact .inl (hcomp.trans (h.resolve_right fun hno => hno d hd))

/-- The build of `p` goes on: what it changes about other modules is only that some are new. -/
structure Advance (env : DependencyEnv) (files : Text → Text) (cache cache' : DependencyHashCache) (b b' : GraphBuild)
    (p : Text) : Prop where
  root : b'.root = b.root
  others : ∀ q stage, q ≠ p → b'.modules.get? q = some stage → b.modules.get? q = some stage ∨
    (b.modules.get? q = none ∧ stage = .reading ∧ cache'.completedModules q = false)
  self : ∀ stage, b'.modules.get? p = some stage → stage ≠ .reading ∧ StageHolds env files cache' b'.InProgress p stage
  hashes : ∀ q, q ≠ p → cache'.contentHashes q = cache.contentHashes q
  edges : ∀ q, q ≠ p → cache'.graph.getDirectDependencies q = cache.graph.getDirectDependencies q
  completed : ∀ q, q ≠ p → cache'.completedModules q = cache.completedModules q
  selfCompleted : cache'.completedModules p = true → Followed env files cache' b'.InProgress p
  covered : ∀ d, cache.completedModules d = true ∨ b.InProgress d → cache'.completedModules d = true ∨ b'.InProgress d
  chain : ∀ q, b'.InProgress q → Relation.ReflTransGen b'.WaitsFor b.root q
  mirror : cache'.graph.Mirror

theorem inProgress_running {w : HashWorld} (hb : w.running = some b) : w.InProgress = b.InProgress := by
  funext d
  refine propext ⟨fun ⟨b', hb', hd⟩ => ?_, fun hd => ⟨b, hb, hd⟩⟩
  obtain rfl := Option.some.inj (hb'.symm.trans hb)
  exact hd

theorem HashInv.advance (h : HashInv env w) (hb : w.running = some b)
    (hp : b.modules.get? p = some stage) (hne : stage ≠ .done) {b' : GraphBuild} (hw : w'.running = some b')
    (hfiles : w'.files = w.files) (ha : Advance env w.files w.cache w'.cache b b' p) : HashInv env w' where
  mirror := ha.mirror
  completed q hq := by
    rw [inProgress_running hw, hfiles]
    by_cases hqp : q = p
    · subst hqp
      exact ha.selfCompleted hq
    · have hold := h.completed q ((ha.completed q hqp).symm.trans hq)
      rw [inProgress_running hb] at hold
      exact hold.update (ha.hashes q hqp) (ha.edges q hqp) ha.covered
  build b₁ hb₁ := by
    obtain rfl := Option.some.inj (hw.symm.trans hb₁)
    rw [hfiles]
    have hinv := h.build b hb
    have hbusy : b.InProgress p := ⟨stage, hp, hne⟩
    refine ⟨fun q st hq => ?_, fun q hq => ha.root ▸ ha.chain q hq, fun hr => ?_⟩
    · by_cases hqp : q = p
      · subst hqp
        exact (ha.self st hq).2
      · rcases ha.others q st hqp hq with hold | ⟨-, rfl, hnc⟩
        · exact (hinv.stages q st hold).update (ha.hashes q hqp) (ha.edges q hqp) (ha.completed q hqp) ha.covered
            ⟨p, hbusy⟩
        · exact hnc
    · -- The root is read before anything else goes on, so it is not being read any more.
      rw [ha.root] at hr
      by_cases hrp : b.root = p
      · exact absurd rfl (ha.self _ (hrp ▸ hr)).1
      · rcases ha.others _ _ hrp hr with hold | ⟨hnone, -⟩
        · exact absurd (hinv.only_root hold hp).1.symm hrp
        · obtain ⟨st, hst⟩ := hinv.root_visited hbusy
          cases hnone.symm.trans hst

theorem chain_setStage (h : BuildInv env files cache b) {old new : ModuleStage}
    (hp : b.modules.get? p = some old) (hold : old ≠ .done) (hwait : ∀ children, old ≠ .waiting children) (q : Text)
    (hq : ({ b with modules := b.modules.set p new } : GraphBuild).InProgress q) :
    Relation.ReflTransGen ({ b with modules := b.modules.set p new } : GraphBuild).WaitsFor b.root q := by
  have hq' : b.InProgress q := by
    rw [inProgress_set] at hq
    split at hq
    · rename_i heq
      exact heq ▸ ⟨old, hp, hold⟩
    · exact hq
  refine Relation.ReflTransGen.mono (r := b.WaitsFor) ?_ _ _ (h.chain q hq')
  rintro u v ⟨children, hu, hv⟩
  refine ⟨children, ?_, hv⟩
  rw [OrdMap.get?_set, if_neg, hu]
  rintro rfl
  exact hwait children (Option.some.inj (hp.symm.trans hu))

theorem HashInv.read (h : HashInv env w) (hb : w.running = some b)
    (hp : b.modules.get? p = some .reading) : HashInv env (w.setStage b p (.hashing (w.files p))) := by
  have hinv := h.build b hb
  refine h.advance hb hp (by simp) rfl rfl ⟨rfl, fun q st hq hst => ?_, fun st hst => ?_, fun _ _ => rfl, fun _ _ => rfl,
    fun _ _ => rfl, fun hc => ?_, fun d hd => hd.imp_right fun hd => ?_, ?_, h.mirror⟩
  · rw [OrdMap.get?_set, if_neg hq] at hst
    exact .inl hst
  · rw [OrdMap.get?_set, if_pos rfl] at hst
    obtain rfl := Option.some.inj hst
    exact ⟨by simp, rfl⟩
  · have hno := hinv.stages p _ hp
    cases hno.symm.trans hc
  · rw [inProgress_set]
    split
    · simp
    · exact hd
  · exact chain_setStage hinv hp (by simp) (by simp)

variable {content : Text}

theorem HashInv.hash (h : HashInv env w) (hb : w.running = some b)
    (hp : b.modules.get? p = some (.hashing content)) : HashInv env (w.setHash env b p content) := by
  have hinv := h.build b hb
  have hcontent : content = w.files p := hinv.stages p _ hp
  have hprog : ∀ d, b.InProgress d →
      ({ b with modules := b.modules.set p (.parsing content) } : GraphBuild).InProgress d := by
    intro d hd
    rw [inProgress_set]
    split
    · simp
    · exact hd
  refine h.advance hb hp (by simp) rfl rfl ⟨rfl, fun q st hq hst => ?_, fun st hst => ?_, fun q hq => ?_, fun _ _ => rfl,
    fun _ _ => rfl, fun hc => ?_, fun d hd => hd.imp_right (hprog d), ?_, h.mirror⟩
  · rw [OrdMap.get?_set, if_neg hq] at hst
    exact .inl hst
  · rw [OrdMap.get?_set, if_pos rfl] at hst
    obtain rfl := Option.some.inj hst
    exact ⟨by simp, hcontent, Function.update_self ..⟩
  · exact Function.update_of_ne hq ..
  · have hold := h.completed p hc
    rw [inProgress_running hb] at hold
    exact ⟨hcontent ▸ Function.update_self .., hold.edges, fun d hd => (hold.covered d hd).imp_right (hprog d)⟩
  · exact chain_setStage hinv hp (by simp) (by simp)

theorem chain_complete (h : BuildInv env files cache b)
    (hkids : ∀ q, b.WaitsFor p q → ¬ b.InProgress q) (q : Text)
    (hq : ({ b with modules := b.modules.set p .done } : GraphBuild).InProgress q) :
    Relation.ReflTransGen ({ b with modules := b.modules.set p .done } : GraphBuild).WaitsFor b.root q := by
  rw [inProgress_set] at hq
  split at hq
  · exact absurd rfl hq
  · rename_i hqp
    induction h.chain q hq with
    | refl => exact .refl
    | @tail m q hm hmq ih =>
      have hmp : m ≠ p := by
        rintro rfl
        exact hkids q hmq hq
      obtain ⟨children, hget, hmem⟩ := hmq
      refine (ih hmp ⟨_, hget, by simp⟩).tail ⟨children, ?_, hmem⟩
      rw [OrdMap.get?_set, if_neg hmp, hget]

theorem HashInv.completeModule (h : HashInv env w) (hb : w.running = some b)
    (hp : b.modules.get? p = some stage) (hne : stage ≠ .done ∧ stage ≠ .reading)
    (hfol : Followed env w.files w.cache b.InProgress p) (hkids : ∀ q, b.WaitsFor p q → ¬ b.InProgress q) :
    HashInv env (w.completeModule b p) := by
  have hinv := h.build b hb
  have hself : (Function.update w.cache.completedModules p true) p = true := Function.update_self ..
  have hcov : ∀ d, w.cache.completedModules d = true ∨ b.InProgress d →
      (Function.update w.cache.completedModules p true) d = true ∨
        ({ b with modules := b.modules.set p .done } : GraphBuild).InProgress d := by
    intro d hd
    by_cases hdp : d = p
    · subst hdp
      exact .inl hself
    · rw [inProgress_set, if_neg hdp, Function.update_of_ne hdp]
      exact hd
  refine h.advance hb hp hne.1 rfl rfl ⟨rfl, fun q st hq hst => ?_, fun st hst => ?_, fun _ _ => rfl, fun _ _ => rfl,
    fun q hq => Function.update_of_ne hq .., fun _ => ⟨hfol.hashed, hfol.edges, fun d hd => hcov d (hfol.covered d hd)⟩,
    hcov, chain_complete hinv hkids, h.mirror⟩
  · rw [OrdMap.get?_set, if_neg hq] at hst
    exact .inl hst
  · rw [OrdMap.get?_set, if_pos rfl] at hst
    obtain rfl := Option.some.inj hst
    exact ⟨by simp, .inl hself⟩

/-! ## Parsing -/

theorem visitDependencies_spec (completed : Text → Bool) (deps : List Text) (modules : OrdMap Text ModuleStage) :
    (∀ q stage, modules.get? q = some stage → (visitDependencies completed modules deps).1.get? q = some stage) ∧
    (∀ q stage, (visitDependencies completed modules deps).1.get? q = some stage → modules.get? q = some stage ∨
      (modules.get? q = none ∧ stage = .reading ∧ completed q = false ∧ q ∈ (visitDependencies completed modules deps).2)) ∧
    (∀ q ∈ (visitDependencies completed modules deps).2, q ∈ deps ∧ modules.get? q = none ∧
      (visitDependencies completed modules deps).1.get? q = some .reading) ∧
    (∀ d ∈ deps, completed d = true ∨ (∃ stage, modules.get? d = some stage) ∨
      (visitDependencies completed modules deps).1.get? d = some .reading) := by
  induction deps generalizing modules with
  | nil => exact ⟨fun _ _ h => h, fun _ _ h => .inl h, fun _ h => (nomatch h), fun _ h => (nomatch h)⟩
  | cons dep deps ih =>
    unfold visitDependencies
    split
    · rename_i hskip
      obtain ⟨h1, h2, h3, h4⟩ := ih modules
      refine ⟨h1, h2, fun q hq => (h3 q hq).imp_left (List.mem_cons_of_mem _), fun d hd => ?_⟩
      rcases List.mem_cons.mp hd with rfl | hd
      · rcases Bool.or_eq_true_iff.mp hskip with hc | hc
        · exact .inl hc
        · exact .inr (.inl (Option.isSome_iff_exists.mp hc))
      · exact h4 d hd
    · rename_i hnew
      obtain ⟨hc, hv⟩ := not_or.mp (mt Bool.or_eq_true_iff.mpr hnew)
      have hnone : modules.get? dep = none := by simpa [OrdMap.contains] using hv
      obtain ⟨h1, h2, h3, h4⟩ := ih (modules.set dep .reading)
      have hset : ∀ q, (modules.set dep ModuleStage.reading).get? q = if q = dep then some .reading else modules.get? q :=
        fun q => OrdMap.get?_set ..
      have hdep := h1 dep .reading (by rw [hset, if_pos rfl])
      refine ⟨fun q st hq => h1 q st ?_, fun q st hq => ?_, fun q hq => ?_, fun d hd => ?_⟩
      · rw [hset, if_neg, hq]
        rintro rfl
        cases hnone.symm.trans hq
      · rcases h2 q st hq with hold | ⟨hn, rfl, hcq, hmem⟩
        · rw [hset] at hold
          split at hold
          · rename_i heq
            subst heq
            exact .inr ⟨hnone, (Option.some.inj hold).symm, by simpa using hc, List.mem_cons_self⟩
          · exact .inl hold
        · rw [hset] at hn
          split at hn
          · cases hn
          · exact .inr ⟨hn, rfl, hcq, List.mem_cons_of_mem _ hmem⟩
      · rcases List.mem_cons.mp hq with rfl | hq
        · exact ⟨List.mem_cons_self, hnone, hdep⟩
        · obtain ⟨hd, hn, hr⟩ := h3 q hq
          rw [hset] at hn
          split at hn
          · cases hn
          · exact ⟨List.mem_cons_of_mem _ hd, hn, hr⟩
      · rcases List.mem_cons.mp hd with rfl | hd
        · exact .inr (.inr hdep)
        · rcases h4 d hd with hcd | ⟨st, hst⟩ | hr
          · exact .inl hcd
          · rw [hset] at hst
            split at hst
            · rename_i heq
              exact .inr (.inr (heq ▸ hdep))
            · exact .inr (.inl ⟨st, hst⟩)
          · exact .inr (.inr hr)

variable {deps : List Text}

theorem Followed.addModule {q : Text} (h : Followed env files cache P q)
    (hdeps : appendNew [] deps = importsOf env files p) :
    Followed env files { cache with graph := cache.graph.addModule p deps } P q where
  hashed := h.hashed
  edges := by
    rw [DependencyGraph.getDirectDependencies_addModule]
    split
    · rename_i heq
      exact hdeps.trans (heq ▸ rfl)
    · exact h.edges
  covered := h.covered

theorem HashInv.addModule (h : HashInv env w) (p : Text) (deps : List Text)
    (hdeps : appendNew [] deps = importsOf env w.files p) :
    HashInv env { w with cache := { w.cache with graph := w.cache.graph.addModule p deps } } where
  mirror := h.mirror.addModule p deps
  completed q hq := (h.completed q hq).addModule hdeps
  build b hb := by
    have hinv := h.build b hb
    refine ⟨fun q st hq => ?_, hinv.chain, fun hr => ⟨(hinv.first hr).1, fun q hq => ?_⟩⟩
    · have hst := hinv.stages q st hq
      cases st with
      | reading => exact hst
      | hashing content => exact hst
      | parsing content => exact hst
      | waiting children => exact Followed.addModule hst hdeps
      | done => exact hst
    · exact ((hinv.first hr).2 q hq).addModule hdeps

theorem mem_importsOf (hdeps : env.localImports p (files p) = some deps) (d : Text) :
    d ∈ importsOf env files p ↔ d ∈ deps := by
  rw [importsOf, hdeps, Option.getD_some, mem_appendNew]
  exact or_iff_right List.not_mem_nil

theorem HashInv.visit (h : HashInv env w) (hb : w.running = some b)
    (hp : b.modules.get? p = some (.parsing (w.files p))) (hdeps : env.localImports p (w.files p) = some deps)
    (hedges : w.cache.graph.getDirectDependencies p = importsOf env w.files p) :
    HashInv env { w with running := some { b with
      modules := (visitDependencies w.cache.completedModules b.modules deps).1.set p
        (.waiting (visitDependencies w.cache.completedModules b.modules deps).2) } } := by
  have hinv := h.build b hb
  have hbusy : b.InProgress p := ⟨_, hp, by simp⟩
  obtain ⟨hkeep, hback, hchild, hall⟩ := visitDependencies_spec w.cache.completedModules deps b.modules
  generalize visitDependencies w.cache.completedModules b.modules deps = vc at *
  have hget : ∀ q, (vc.1.set p (ModuleStage.waiting vc.2)).get? q = if q = p then some (.waiting vc.2) else vc.1.get? q :=
    fun q => OrdMap.get?_set ..
  have hprog : ∀ d st, b.modules.get? d = some st → st ≠ .done →
      ({ b with modules := vc.1.set p (.waiting vc.2) } : GraphBuild).InProgress d := by
    intro d st hd hne
    by_cases hdp : d = p
    · exact ⟨_, by rw [hget, if_pos hdp], by simp⟩
    · exact ⟨st, by rw [hget, if_neg hdp, hkeep d st hd], hne⟩
  have hfol : Followed env w.files w.cache ({ b with modules := vc.1.set p (.waiting vc.2) } : GraphBuild).InProgress p := by
    refine ⟨(hinv.stages p _ hp).2, hedges, fun d hd => ?_⟩
    rcases hall d ((mem_importsOf hdeps d).mp hd) with hc | ⟨st, hst⟩ | hr
    · exact .inl hc
    · by_cases hdone : st = .done
      · subst hdone
        exact .inl ((hinv.stages d _ hst).resolve_right fun hno => hno p hbusy)
      · exact .inr (hprog d st hst hdone)
    · by_cases hdp : d = p
      · exact .inr ⟨_, by rw [hget, if_pos hdp], by simp⟩
      · exact .inr ⟨_, by rw [hget, if_neg hdp, hr], by simp⟩
  have hchain : ∀ q, b.InProgress q → Relation.ReflTransGen
      ({ b with modules := vc.1.set p (.waiting vc.2) } : GraphBuild).WaitsFor b.root q := by
    intro q hq
    refine Relation.ReflTransGen.mono (r := b.WaitsFor) ?_ _ _ (hinv.chain q hq)
    rintro u v ⟨children, hu, hv⟩
    refine ⟨children, ?_, hv⟩
    rw [hget, if_neg, hkeep u _ hu]
    rintro rfl
    cases hp.symm.trans hu
  refine h.advance hb hp (by simp) rfl rfl ⟨rfl, fun q st hq hst => ?_, fun st hst => ?_, fun _ _ => rfl, fun _ _ => rfl,
    fun _ _ => rfl, fun _ => hfol, fun d hd => hd.imp_right fun ⟨st, hst, hne⟩ => hprog d st hst hne, ?_, h.mirror⟩
  · rw [hget, if_neg hq] at hst
    exact (hback q st hst).imp_right fun ⟨hn, hr, hc, _⟩ => ⟨hn, hr, hc⟩
  · rw [hget, if_pos rfl] at hst
    obtain rfl := Option.some.inj hst
    exact ⟨by simp, hfol⟩
  · rintro q ⟨st, hst, hne⟩
    by_cases hqp : q = p
    · exact hqp ▸ hchain p hbusy
    · rw [hget, if_neg hqp] at hst
      rcases hback q st hst with hold | ⟨-, -, -, hmem⟩
      · exact hchain q ⟨st, hold, hne⟩
      · exact (hchain p hbusy).tail ⟨vc.2, by rw [hget, if_pos rfl], hmem⟩

theorem HashInv.parse (h : HashInv env w) (hb : w.running = some b)
    (hp : b.modules.get? p = some (.parsing content)) : HashInv env (w.addImports env b p content) := by
  have hst := (h.build b hb).stages p _ hp
  obtain ⟨rfl, hhash⟩ := hst
  unfold HashWorld.addImports
  split
  · rename_i hnone
    have hno : importsOf env w.files p = [] := by simp [importsOf, hnone, appendNew]
    have h' := h.addModule p [] (by rw [hno]; rfl)
    have hedges : (w.cache.graph.addModule p []).getDirectDependencies p = importsOf env w.files p := by
      rw [DependencyGraph.getDirectDependencies_addModule, if_pos rfl, hno]
      rfl
    refine h'.completeModule hb hp (by simp) ⟨hhash, hedges, fun d hd => ?_⟩ fun q hq => ?_
    · rw [hno] at hd
      cases hd
    · obtain ⟨children, hget, -⟩ := hq
      cases hp.symm.trans hget
  · rename_i deps hdeps
    have himp : appendNew [] deps = importsOf env w.files p := by rw [importsOf, hdeps, Option.getD_some]
    refine (h.addModule p deps himp).visit hb hp hdeps ?_
    exact (DependencyGraph.getDirectDependencies_addModule ..).trans ((if_pos rfl).trans himp)

theorem HashInv.complete (h : HashInv env w) (hb : w.running = some b) {children : List Text}
    (hp : b.modules.get? p = some (.waiting children)) (hall : children.all b.isDone = true) :
    HashInv env (w.completeModule b p) := by
  refine h.completeModule hb hp (by simp) ((h.build b hb).stages p _ hp) ?_
  rintro q ⟨children', hget, hmem⟩ ⟨st, hst, hne⟩
  obtain rfl := ModuleStage.waiting.inj (Option.some.inj (hp.symm.trans hget))
  have hdone := List.all_eq_true.mp hall q hmem
  rw [GraphBuild.isDone, hst, decide_eq_true_eq] at hdone
  exact hne (Option.some.inj hdone)

theorem HashInv.failRead (h : HashInv env w) (hb : w.running = some b) (hp : b.modules.get? b.root = some .reading) :
    HashInv env (w.failRead b b.root) := by
  have hinv := h.build b hb
  obtain ⟨hmods, hclosed⟩ := hinv.first hp
  have hnot : w.cache.completedModules b.root = false := hinv.stages b.root _ hp
  have hidle : ∀ q, ¬ ({ b with modules := b.modules.set b.root .done } : GraphBuild).InProgress q := by
    intro q
    rw [inProgress_set]
    split
    · simp
    · rename_i hq
      rintro ⟨st, hst, -⟩
      exact hq (hinv.only_root hp hst).1
  have hfol : ∀ q P, w.cache.completedModules q = true → Followed env w.files
      { w.cache with graph := w.cache.graph.addModule b.root [] } P q := by
    intro q P hq
    have hold := hclosed q hq
    have hne : q ≠ b.root := by
      rintro rfl
      cases hnot.symm.trans hq
    refine ⟨hold.hashed, ?_, fun d hd => .inl ((hold.covered d hd).resolve_right id)⟩
    exact (DependencyGraph.getDirectDependencies_addModule ..).trans ((if_neg hne).trans hold.edges)
  refine ⟨h.mirror.addModule b.root [], fun q hq => hfol q _ hq, fun b' hb' => ?_⟩
  obtain rfl := Option.some.inj hb'
  refine ⟨fun q st hq => ?_, fun q hq => absurd hq (hidle q), fun hr => ?_⟩
  · rw [OrdMap.get?_set] at hq
    split at hq
    · obtain rfl := Option.some.inj hq
      exact .inr hidle
    · rename_i hne
      exact absurd (hinv.only_root hp hq).1 hne
  · rw [OrdMap.get?_set, if_pos rfl] at hr
    cases hr

/-! ## Builds begin and end -/

theorem HashInv.startBuild (h : HashInv env w) (hnone : w.running = none) (root : Text) (rest : List Text) :
    HashInv env (w.startBuild root rest) := by
  have hquiet : ∀ d, ¬ w.InProgress d := fun d ⟨b, hb, _⟩ => nomatch hnone.symm.trans hb
  refine ⟨h.mirror, fun p hp => (h.completed p hp).mono fun d hd => absurd hd (hquiet d), fun b hb => ?_⟩
  obtain rfl := Option.some.inj hb
  have hget : ∀ q st, (if w.cache.completedModules root then OrdMap.empty else OrdMap.empty.set root .reading :
      OrdMap Text ModuleStage).get? q = some st → q = root ∧ st = .reading ∧ w.cache.completedModules root = false := by
    intro q st hq
    split at hq
    · cases hq
    · rename_i hc
      rw [OrdMap.get?_set] at hq
      split at hq
      · rename_i heq
        exact ⟨heq, (Option.some.inj hq).symm, by simpa using hc⟩
      · cases hq
  refine ⟨fun q st hq => ?_, fun q hq => ?_, fun hr => ⟨?_, fun p hp => ?_⟩⟩
  · obtain ⟨rfl, rfl, hc⟩ := hget q st hq
    exact hc
  · obtain ⟨st, hst, -⟩ := hq
    obtain ⟨rfl, -, -⟩ := hget q st hst
    exact .refl
  · obtain ⟨-, -, hc⟩ := hget _ _ hr
    simp [hc]
  · exact (h.completed p hp).mono fun d hd => absurd hd (hquiet d)

theorem HashInv.finish (h : HashInv env w) (hb : w.running = some b) (hf : b.finished = true) (results : List (Text × Text)) :
    HashInv env { w with running := none, results := results } := by
  refine ⟨h.mirror, fun p hp => ?_, fun b' hb' => nomatch hb'⟩
  have hold := h.completed p hp
  rw [inProgress_running hb] at hold
  exact hold.mono fun d hd => absurd hd ((h.build b hb).finished_idle hf d)

/-! ## Edits -/

theorem Followed.edit {x : Text} (hm : cache.graph.Mirror)
    (h : Followed env files cache P p) (hp : p ∉ cache.modulesToInvalidate [x]) :
    Followed env (Function.update files x content) (cache.invalidate [x]) P p := by
  have hev := DependencyHashCache.evicted_foldl (cache.modulesToInvalidate [x]) cache
  have hmem := DependencyHashCache.mem_modulesToInvalidate (x := x) hm
  have hpx : p ≠ x := fun heq => hp ((hmem p).mpr (heq ▸ .refl))
  have hfile : Function.update files x content p = files p := Function.update_of_ne hpx ..
  have himp : importsOf env (Function.update files x content) p = importsOf env files p := by
    rw [importsOf, importsOf, hfile]
  refine ⟨?_, ?_, fun d hd => ?_⟩
  · rw [hfile]
    exact (hev.hashes p hp).trans h.hashed
  · rw [himp]
    exact (hev.edges p hp).trans h.edges
  · rw [himp] at hd
    refine (h.covered d hd).imp_left fun hc => (hev.completed d).mpr ⟨fun hz => hp ?_, hc⟩
    exact (hmem p).mpr (.head (h.edges ▸ hd) ((hmem d).mp hz))

theorem HashInv.edit (h : HashInv env w) {x : Text} (hok : Undisturbed w (.edit x content)) :
    HashInv env { w with files := Function.update w.files x content, cache := w.cache.invalidate [x] } := by
  have hev := DependencyHashCache.evicted_foldl (w.cache.modulesToInvalidate [x]) w.cache
  have hmem := DependencyHashCache.mem_modulesToInvalidate (x := x) h.mirror
  refine ⟨hev.mirror h.mirror, fun p hp => ?_, fun b hb => ?_⟩
  · obtain ⟨hz, hc⟩ := (hev.completed p).mp hp
    exact (h.completed p hc).edit h.mirror hz
  · have hinv := h.build b hb
    have hfirst : b.modules.get? b.root = some .reading → b.modules = OrdMap.empty.set b.root .reading ∧
        ∀ p, (w.cache.invalidate [x]).completedModules p = true →
          Followed env (Function.update w.files x content) (w.cache.invalidate [x]) (fun _ => False) p := by
      intro hr
      refine ⟨(hinv.first hr).1, fun p hp => ?_⟩
      obtain ⟨hz, hc⟩ := (hev.completed p).mp hp
      exact ((hinv.first hr).2 p hc).edit h.mirror hz
    refine ⟨fun q st hq => ?_, hinv.chain, hfirst⟩
    rcases hok b hb with hf | hun
    · -- Nothing of a finished build is left to go on.
      have hidle := hinv.finished_idle hf
      obtain rfl : st = .done := by
        by_contra hne
        exact hidle q ⟨st, hq, hne⟩
      exact .inr hidle
    · obtain ⟨hdep, hx⟩ := hun q (by rw [OrdMap.contains, hq]; rfl)
      have hst := hinv.stages q st hq
      by_cases hqx : q = x
      · obtain rfl := Option.some.inj ((hx hqx).symm.trans hq)
        have hz : q ∈ w.cache.modulesToInvalidate [x] := (hmem q).mpr (hqx ▸ .refl)
        exact Bool.eq_false_iff.mpr fun hc => ((hev.completed q).mp hc).1 hz
      · have hz : q ∉ w.cache.modulesToInvalidate [x] := by
          intro hz
          rcases List.mem_cons.mp ((DependencyGraph.mem_getDependents h.mirror x q).mpr ((hmem q).mp hz)) with heq | hd
          · exact hqx heq
          · exact hdep hd
        have hfile : Function.update w.files x content q = w.files q := Function.update_of_ne hqx ..
        cases st with
        | reading => exact Bool.eq_false_iff.mpr fun hc => by cases hst.symm.trans ((hev.completed q).mp hc).2
        | hashing c => exact hst.trans hfile.symm
        | parsing c => exact ⟨hst.1.trans hfile.symm, (hev.hashes q hz).trans hst.2⟩
        | waiting children => exact Followed.edit h.mirror hst hz
        | done => exact hst.imp_left fun hc => (hev.completed q).mpr ⟨hz, hc⟩

/-! ## Steps -/

inductive Advanced (env : DependencyEnv) (w : HashWorld) (b : GraphBuild) (p : Text) : ModuleEvent → HashWorld → Prop
  | read (hp : b.modules.get? p = some .reading) : Advanced env w b p .read (w.setStage b p (.hashing (w.files p)))
  | readFails (hp : b.modules.get? p = some .reading) : Advanced env w b p .readFails (w.failRead b p)
  | hash {content : Text} (hp : b.modules.get? p = some (.hashing content)) :
      Advanced env w b p .hash (w.setHash env b p content)
  | parse {content : Text} (hp : b.modules.get? p = some (.parsing content)) :
      Advanced env w b p .parse (w.addImports env b p content)
  | complete {children : List Text} (hp : b.modules.get? p = some (.waiting children))
      (hall : children.all b.isDone = true) : Advanced env w b p .complete (w.completeModule b p)

theorem advanced_of_step {event : ModuleEvent} (h : w.step env (.advance p event) = some w') :
    ∃ b, w.running = some b ∧ Advanced env w b p event w' := by
  obtain ⟨b, hb, h⟩ := Option.bind_eq_some_iff.mp h
  obtain ⟨stage, hp, h⟩ := Option.bind_eq_some_iff.mp h
  refine ⟨b, hb, ?_⟩
  unfold HashWorld.stepModule at h
  split at h
  · exact Option.some.inj h ▸ .read hp
  · exact Option.some.inj h ▸ .readFails hp
  · exact Option.some.inj h ▸ .hash hp
  · exact Option.some.inj h ▸ .parse hp
  · split at h
    · rename_i hall
      exact Option.some.inj h ▸ .complete hp hall
    · cases h
  · cases h

theorem HashInv.step (h : HashInv env w) {a : HashAction} (hok : Undisturbed w a) (hs : w.step env a = some w') :
    HashInv env w' := by
  cases a with
  | call filePath =>
    obtain rfl := Option.some.inj hs
    exact ⟨h.mirror, h.completed, h.build⟩
  | build =>
    dsimp only [HashWorld.step] at hs
    split at hs
    · rename_i root rest hnone hq
      obtain rfl := Option.some.inj hs
      exact h.startBuild hnone root rest
    · cases hs
  | advance p event =>
    obtain ⟨b, hb, hadv⟩ := advanced_of_step hs
    cases hadv with
    | read hp => exact h.read hb hp
    | readFails hp =>
      obtain rfl := hok b hb
      exact h.failRead hb hp
    | hash hp => exact h.hash hb hp
    | parse hp => exact h.parse hb hp
    | complete hp hall => exact h.complete hb hp hall
  | finish =>
    obtain ⟨b, hb, hs⟩ := Option.bind_eq_some_iff.mp hs
    split at hs
    · rename_i hf
      obtain rfl := Option.some.inj hs
      exact h.finish hb hf _
    · cases hs
  | edit x content =>
    obtain rfl := Option.some.inj hs
    exact h.edit hok

theorem hashInv_initial (env : DependencyEnv) (files : Text → Text) : HashInv env (.initial files) :=
  ⟨.empty, fun _ h => (nomatch h), fun _ h => (nomatch h)⟩

end Preservation

end Veryfront.Cache
