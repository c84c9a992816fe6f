import Veryfront.Workflow.Dag.Safety
import Veryfront.Lib.Runs

/-!
# How often a step is started when its workers die

The attempt of a node is raised, and the raise is on the run record, before the node starts. A node
that a dead worker left running starts again only while its attempts allow it. So over any number of
executions a step with `maxAttempts = m` starts `m + 1` times at most, and an execution that never
admits it leaves its record as it was.
-/

namespace Veryfront.Workflow

open Veryfront.Lib

/-! ## One step in one call -/

def attemptsOf (state : Option NodeState) : Nat := (state.map (·.attempt)).getD 0

def Startable (maxAttempts : Nat) (state : Option NodeState) : Prop :=
  ∀ s ∈ state, s.status = .pending ∨ s.status = .failed ∨ s.status = .running ∧ s.attempt ≤ maxAttempts

/-- The record of the node after it was admitted once from `start`. -/
def Charged (start state : Option NodeState) : Prop :=
  ∃ s, state = some s ∧ attemptsOf start < s.attempt ∧ s.status ≠ .pending

def NodeFate (maxAttempts : Nat) (x : String) (start : Option NodeState) (started : List (String × NodeStates))
    (admitted : List String) (persisted : NodeStates) : Prop :=
  x ∉ started.map Prod.fst ∧ persisted.get? x = start ∨
  x ∈ admitted ∧ Startable maxAttempts start ∧ Charged start (persisted.get? x)

/-- The executor, the record and the last publication agree on the node. -/
structure Synced (x : String) (s : Scheduler) : Prop where
  persisted : s.persisted.get? x = s.nodeStates.get? x
  published : s.publishedNodeStates.get? x = s.nodeStates.get? x

structure Unspent (maxAttempts : Nat) (x : String) (start : Option NodeState) (s : Scheduler) : Prop where
  not_started : x ∉ s.started.map Prod.fst
  unchanged : s.nodeStates.get? x = start
  queued : x ∈ s.ready → isReady s.nodeStates x = true ∨ x ∈ s.recoveryQueued ∧ Startable maxAttempts start

structure Spent (maxAttempts : Nat) (x : String) (start : Option NodeState) (s : Scheduler) : Prop where
  admitted : x ∈ s.admitted
  startable : Startable maxAttempts start
  charged : Charged start (s.nodeStates.get? x)

/-- What the loop keeps about the node. -/
structure Tracked (maxAttempts : Nat) (x : String) (start : Option NodeState) (s : Scheduler) : Prop where
  synced : Synced x s
  fate : Unspent maxAttempts x start s ∨ Spent maxAttempts x start s ∧ x ∈ s.started.map Prod.fst

variable {nodes : List WorkflowNode} {g : DAGGraph} {call : DAGCall} {m : Nat} {x : String}
variable {start : Option NodeState}

theorem Startable.of_isReady {nodeStates : NodeStates} (h : isReady nodeStates x = true) :
    Startable m (nodeStates.get? x) := by
  intro s hs
  rw [isReady, Option.mem_def.mp hs] at h
  exact (of_decide_eq_true h).imp_right .inl

variable {s : Scheduler} {persisted : NodeStates}

theorem Unspent.fate (h : Unspent m x start s)
    (hp : persisted.get? x = s.nodeStates.get? x) :
    NodeFate m x start s.started s.admitted persisted :=
  .inl ⟨h.not_started, hp.trans h.unchanged⟩

theorem Spent.fate (h : Spent m x start s)
    (hp : persisted.get? x = s.nodeStates.get? x) :
    NodeFate m x start s.started s.admitted persisted :=
  .inr ⟨h.admitted, h.startable, hp ▸ h.charged⟩

theorem Tracked.nodeFate (h : Tracked m x start s) :
    NodeFate m x start s.started s.admitted s.persisted :=
  h.fate.elim (·.fate h.synced.persisted) fun hs => hs.1.fate h.synced.persisted

/-! ## Publication and admission of the node -/

theorem publishNodeStates_key (reply : PublishReply)
    (h : s.persisted.get? x = s.publishedNodeStates.get? x) :
    ((publishNodeStates reply s).1.persisted.get? x = s.persisted.get? x ∨
      (publishNodeStates reply s).1.persisted.get? x = s.nodeStates.get? x) ∧
    ((publishNodeStates reply s).2 = none → Synced x (publishNodeStates reply s).1) ∧
    (publishNodeStates reply s).1.admitted = s.admitted := by
  have hpatch : (applyRecordPatch s.persisted
      (createRecordPatch s.publishedNodeStates s.nodeStates)).get? x = s.nodeStates.get? x := by
    rw [get?_applyRecordPatch_create]
    split
    · rename_i heq
      exact h.trans heq
    · rfl
  unfold publishNodeStates
  cases reply with
  | persisted => exact ⟨.inr hpatch, fun _ => ⟨hpatch, rfl⟩, rfl⟩
  | refused => exact ⟨.inl rfl, nofun, rfl⟩
  | threw tookEffect =>
    cases tookEffect with
    | true => exact ⟨.inr hpatch, nofun, rfl⟩
    | false => exact ⟨.inl rfl, nofun, rfl⟩

theorem admitBatch_key (now : Timestamp) (batch : List String) : ∀ s : Scheduler, batch.Nodup →
    (admitBatch now s batch).persisted = s.persisted ∧
    (admitBatch now s batch).publishedNodeStates = s.publishedNodeStates ∧
    (admitBatch now s batch).admitted = s.admitted ++ batch ∧
    (x ∉ batch → x ∈ s.recoveryQueued → x ∈ (admitBatch now s batch).recoveryQueued) ∧
    (x ∈ batch → (admitBatch now s batch).nodeStates.get? x =
      some (runningState (s.nodeStates.get? x) x (x ∈ s.recoveryQueued) now)) := by
  induction batch with
  | nil => exact fun s _ => ⟨rfl, rfl, (List.append_nil _).symm, fun _ h => h, nofun⟩
  | cons n batch ih =>
    intro s hnodup
    obtain ⟨hn, hnodup⟩ := List.nodup_cons.mp hnodup
    obtain ⟨h1, h2, h3, h4, h5⟩ := ih (admitNode now s n) hnodup
    refine ⟨h1, h2, h3.trans (by simp [admitNode]), fun hx hq => ?_, fun hx => ?_⟩
    · obtain ⟨hne, hx⟩ := not_or.mp (List.mem_cons.not.mp hx)
      exact h4 hx (List.mem_filter.mpr ⟨hq, by simpa using hne⟩)
    · by_cases hxn : x = n
      · subst hxn
        obtain ⟨-, -, -, hget⟩ := admitBatch_spec now batch (admitNode now s x)
        refine ((hget x).1 hn).trans ?_
        simp [admitNode]
      · refine (h5 ((List.mem_cons.mp hx).resolve_left hxn)).trans ?_
        simp [admitNode, hxn]

theorem runningState_charged (x : String) {existing : Option NodeState} {isRecovery : Bool} {now : Timestamp}
    (h : ∀ s ∈ existing, s.status = .running → isRecovery = true) :
    Charged existing (some (runningState existing x isRecovery now)) := by
  refine ⟨_, rfl, ?_, ?_⟩
  · cases existing with
    | none => exact Nat.zero_lt_one
    | some s =>
      have hraise : ¬ (s.status = .running ∧ isRecovery = false) := by
        rintro ⟨hrun, hnot⟩
        rw [h s rfl hrun] at hnot
        cases hnot
      simp [attemptsOf, runningState, hraise]
  · rw [runningState_status]
    nofun

/-! ## The node in a batch -/

theorem Charged.mono {s s' : NodeState} (h : Charged start (some s)) (ha : s.attempt ≤ s'.attempt)
    (hp : s'.status ≠ .pending) : Charged start (some s') := by
  obtain ⟨w, hw, hlt, -⟩ := h
  obtain rfl := Option.some.inj hw
  exact ⟨s', rfl, Nat.lt_of_lt_of_le hlt ha, hp⟩

theorem settleBatch_charged (hc : Coherent call nodes) (hx : x ∈ nodes.map (·.id)) {now : Timestamp}
    {round : Nat} {base : NodeStates} (hbase : Charged start (base.get? x)) (rest : List String) :
    ∀ t t' : Settlement, Charged start (t.nodeStates.get? x) →
      settleBatch g now base (fun n => call.executeNode round n base) rest t = .ok t' →
      Charged start (t'.nodeStates.get? x) := by
  induction rest with
  | nil => exact fun t t' h ht => Except.ok.inj ht ▸ h
  | cons n rest ih =>
    intro t t' h ht
    unfold settleBatch at ht
    cases hs : settleNode g now base t n (call.executeNode round n base) with
    | error e => rw [hs] at ht; cases ht
    | ok t₁ =>
      rw [hs] at ht
      refine ih t₁ t' ?_ ht
      obtain ⟨state, hget, hattempt, hpending, -⟩ := settleNode_ok hc hs
      rw [hget x hx]
      split
      · rename_i hxn
        obtain ⟨s, hs, -, -⟩ := id hbase
        rw [← hxn, hs] at hattempt
        exact (hs ▸ hbase).mono hattempt hpending
      · exact h

inductive NodeAway (m : Nat) (x : String) (start : Option NodeState) (batch : List String) (s : Scheduler) :
    Prop
  | inBatch : x ∈ batch → Spent m x start s → NodeAway m x start batch s
  | aside : x ∉ batch → Unspent m x start s ∨ Spent m x start s ∧ x ∈ s.started.map Prod.fst →
      NodeAway m x start batch s

variable {batch : List String}

theorem NodeAway.nodeFate (h : NodeAway m x start batch s) (hp : persisted.get? x = s.nodeStates.get? x) :
    NodeFate m x start s.started s.admitted persisted := by
  rcases h with ⟨-, hs⟩ | ⟨-, hu | ⟨hs, -⟩⟩
  · exact hs.fate hp
  · exact hu.fate hp
  · exact hs.fate hp

structure NodeResult (m : Nat) (x : String) (start : Option NodeState) (r : Scheduler × Option DAGEnd) :
    Prop where
  continues : r.2 = none → Tracked m x start r.1
  ends : r.2 ≠ none → NodeFate m x start r.1.started r.1.admitted r.1.persisted

theorem NodeAway.of_same {s' : Scheduler} (h : NodeAway m x start batch s)
    (hs : SameSchedule s s') (ha : s'.admitted = s.admitted) : NodeAway m x start batch s' := by
  obtain ⟨h1, -, h3, h4, -, h6⟩ := hs
  have hspent : Spent m x start s → Spent m x start s' := fun h => ⟨ha ▸ h.admitted, h.startable, h1 ▸ h.charged⟩
  rcases h with ⟨hb, h⟩ | ⟨hb, h⟩
  · exact .inBatch hb (hspent h)
  · refine .aside hb (h.imp (fun hu => ?_) fun h => ⟨hspent h.1, h6 ▸ h.2⟩)
    constructor
    · rw [h6]; exact hu.not_started
    · rw [h1]; exact hu.unchanged
    · rw [h1, h3, h4]; exact hu.queued

theorem concludeBatch_key {round : Nat} {t : Settlement}
    (hsync : Synced x s) (h : NodeAway m x start batch s)
    (hstarted : x ∈ batch → x ∈ s.started.map Prod.fst) :
    NodeResult m x start (concludeBatch call round t s) := by
  have hfate : NodeFate m x start s.started s.admitted s.persisted := h.nodeFate hsync.persisted
  have htracked : Tracked m x start (requeue s) := by
    refine ⟨⟨hsync.persisted, hsync.published⟩, ?_⟩
    rcases h with ⟨hb, hs⟩ | ⟨-, hu | hs⟩
    · exact .inr ⟨⟨hs.admitted, hs.startable, hs.charged⟩, hstarted hb⟩
    · refine .inl ⟨hu.not_started, hu.unchanged, fun hx => ?_⟩
      rcases mem_appendNew.mp hx with hx | hx
      · exact hu.queued hx
      · exact .inl (mem_getReadyNodes.mp hx).2
    · exact .inr ⟨⟨hs.1.admitted, hs.1.startable, hs.1.charged⟩, hs.2⟩
  unfold concludeBatch
  split
  · exact ⟨nofun, fun _ => hfate⟩
  · exact ⟨nofun, fun _ => hfate⟩
  · dsimp only
    split
    · split
      · exact ⟨nofun, fun _ => hfate⟩
      split
      · exact ⟨nofun, fun _ => hfate⟩
      · exact ⟨fun _ => htracked, fun h => absurd rfl h⟩
    · exact ⟨fun _ => htracked, fun h => absurd rfl h⟩

theorem settle_key (hg : WellFormed nodes g) (hc : Coherent call nodes) (hdur : call.isDurableRun = true)
    (hx : x ∈ nodes.map (·.id)) {round : Nat}
    (hin : InFlight nodes g batch s) (hsync : Synced x s) (h : NodeAway m x start batch s)
    (hstarted : x ∈ batch → x ∈ s.started.map Prod.fst) :
    NodeResult m x start (settle call g round batch s) := by
  unfold settle
  split
  · exact ⟨by simp, fun _ => h.nodeFate hsync.persisted⟩
  rename_i t ht
  have hinv := settleBatch_inv hg hc hin.batch_mem batch _ t hin.batch_nodup (List.Subset.refl _) hin.settleInv ht
  -- the node as it is settled, before that is on the record
  have haway : NodeAway m x start batch { s with nodeStates := t.nodeStates, inDegree := t.inDegree } := by
    rcases h with ⟨hb, hs⟩ | ⟨hb, hs⟩
    · exact .inBatch hb ⟨hs.admitted, hs.startable, settleBatch_charged hc hx hs.charged batch _ t hs.charged ht⟩
    · have hsame := hinv.others x hx hb
      refine .aside hb (hs.imp (fun hu => ⟨hu.not_started, hsame.trans hu.unchanged, fun hr => ?_⟩) fun hs =>
        ⟨⟨hs.1.admitted, hs.1.startable, hsame ▸ hs.1.charged⟩, hs.2⟩)
      simpa only [isReady, hsame] using hu.queued hr
  obtain ⟨hwritten, hsynced, hadmitted⟩ :=
    publishNodeStates_key (call.onNodeStatesChanged round .settlement) (x := x)
      (s := { s with nodeStates := t.nodeStates, inDegree := t.inDegree })
      (hsync.persisted.trans hsync.published.symm)
  have hsame := publishNodeStates_same (call.onNodeStatesChanged round .settlement)
    { s with nodeStates := t.nodeStates, inDegree := t.inDegree }
  rw [commitSettlement, if_pos hdur]
  split
  · rename_i s' e hpublish
    rw [hpublish] at hwritten hadmitted hsame
    refine ⟨by simp, fun _ => ?_⟩
    dsimp only at hwritten hadmitted hsame ⊢
    rw [hsame.started, hadmitted]
    rcases hwritten with hw | hw
    · exact h.nodeFate (hw.trans hsync.persisted)
    · exact haway.nodeFate hw
  · rename_i s' hpublish
    rw [hpublish] at hsynced hadmitted hsame
    have haway' := haway.of_same hsame hadmitted
    split
    · exact ⟨by simp, fun _ => haway'.nodeFate (hsynced rfl).persisted⟩
    · exact concludeBatch_key (hsynced rfl) haway' fun hb => hsame.started ▸ hstarted hb

theorem executeBatch_key (hg : WellFormed nodes g) (hc : Coherent call nodes) (hdur : call.isDurableRun = true)
    (hx : x ∈ nodes.map (·.id)) {round : Nat}
    (hin : InFlight nodes g batch s) (hfresh : ∀ v ∈ batch, v ∉ s.started.map Prod.fst) (hsync : Synced x s)
    (h : NodeAway m x start batch s) : NodeResult m x start (executeBatch call g round batch s) := by
  unfold executeBatch
  split
  · exact ⟨nofun, fun _ => h.nodeFate hsync.persisted⟩
  have hmap : (batch.map fun nodeId => (nodeId, s.nodeStates)).map Prod.fst = batch := by
    rw [List.map_map]
    exact List.map_id batch
  have hstarted : x ∈ batch → x ∈ (s.started ++ batch.map fun nodeId => (nodeId, s.nodeStates)).map Prod.fst := by
    intro hb
    rw [List.map_append, hmap]
    exact List.mem_append_right _ hb
  have haway : NodeAway m x start batch
      { s with started := s.started ++ batch.map fun nodeId => (nodeId, s.nodeStates) } := by
    rcases h with ⟨hb, hs⟩ | ⟨hb, hu | hs⟩
    · exact .inBatch hb ⟨hs.admitted, hs.startable, hs.charged⟩
    · refine .aside hb (.inl ⟨?_, hu.unchanged, hu.queued⟩)
      rw [List.map_append, hmap, List.mem_append, not_or]
      exact ⟨hu.not_started, hb⟩
    · refine .aside hb (.inr ⟨⟨hs.1.admitted, hs.1.startable, hs.1.charged⟩, ?_⟩)
      rw [List.map_append]
      exact List.mem_append_left _ hs.2
  dsimp only
  split
  · exact ⟨nofun, fun _ => haway.nodeFate hsync.persisted⟩
  · exact settle_key hg hc hdur hx (hin.start hfresh hg) ⟨hsync.persisted, hsync.published⟩ haway hstarted

theorem Tracked.admit (hinv : SchedulerInv g s) (h : Tracked m x start s)
    {ready : List String} (hperm : (batch ++ ready).Perm s.ready) (now : Timestamp) :
    NodeAway m x start batch (admitBatch now { s with ready } batch) := by
  have hbatch : batch.Nodup := (List.nodup_append.mp (hperm.nodup_iff.mpr hinv.ready_nodup)).1
  obtain ⟨-, hready, hstarted, hget⟩ := admitBatch_spec now batch { s with ready }
  obtain ⟨-, -, hadmitted, hkept, hcharged⟩ := admitBatch_key (x := x) now batch { s with ready } hbatch
  generalize admitBatch now { s with ready } batch = s₁ at *
  dsimp only at hready hstarted hget hadmitted hkept hcharged
  by_cases hb : x ∈ batch
  · have hq : x ∈ s.ready := hperm.mem_iff.mp (List.mem_append_left _ hb)
    have hu : Unspent m x start s := by
      refine h.fate.resolve_right fun hs => ?_
      have hdone := (hinv.started_done x hs.2).2
      rw [(hinv.ready x hq).2] at hdone
      cases hdone
    have hstartable : Startable m start := by
      rcases hu.queued hq with hr | ⟨-, hs⟩
      · exact hu.unchanged ▸ Startable.of_isReady hr
      · exact hs
    have hrecovery : ∀ st ∈ s.nodeStates.get? x, st.status = .running →
        decide (x ∈ s.recoveryQueued) = true := by
      intro st hst hrun
      rcases hu.queued hq with hr | ⟨hr, -⟩
      · rw [isReady, Option.mem_def.mp hst] at hr
        simp [hrun] at hr
      · exact decide_eq_true hr
    refine .inBatch hb ⟨hadmitted ▸ List.mem_append_right _ hb, hstartable, ?_⟩
    rw [hcharged hb, ← hu.unchanged]
    exact runningState_charged x hrecovery
  · have hsame := (hget x).1 hb
    refine .aside hb (h.fate.imp (fun hu => ⟨hstarted ▸ hu.not_started, hsame.trans hu.unchanged, ?_⟩) ?_)
    · intro hx
      rw [hready] at hx
      rw [isReady, hsame, ← isReady]
      exact (hu.queued (hperm.mem_iff.mp (List.mem_append_right _ hx))).imp_right fun hr => ⟨hkept hb hr.1, hr.2⟩
    · rintro ⟨hs, hst⟩
      exact ⟨⟨hadmitted ▸ List.mem_append_left _ hs.admitted, hs.startable, hsame.symm ▸ hs.charged⟩,
        hstarted ▸ hst⟩

theorem NodeFate.mono {started : List (String × NodeStates)} {admitted admitted' : List String}
    (h : NodeFate m x start started admitted persisted)
    (ha : admitted ⊆ admitted') : NodeFate m x start started admitted' persisted :=
  h.imp_right fun h => ⟨ha h.1, h.2⟩

theorem NodeFate.congr {started : List (String × NodeStates)} {admitted : List String}
    {persisted' : NodeStates} (h : NodeFate m x start started admitted persisted)
    (hp : persisted'.get? x = persisted.get? x) : NodeFate m x start started admitted persisted' := by
  rwa [NodeFate, hp]

theorem runBatch_key (hg : WellFormed nodes g) (hc : Coherent call nodes) (hdur : call.isDurableRun = true)
    (hx : x ∈ nodes.map (·.id)) (round : Nat) (hinv : SchedulerInv g s) (hne : s.ready ≠ [])
    (h : Tracked m x start s) : NodeResult m x start (runBatch call g round s) := by
  unfold runBatch
  split
  · exact ⟨nofun, fun _ => h.nodeFate⟩
  split
  · exact ⟨nofun, fun _ => h.nodeFate⟩
  rename_i batch ready hselect
  obtain ⟨hperm, hbatch⟩ := selectBatch_front hg hinv hne hselect
  obtain ⟨hin, hfresh⟩ := hinv.admit hg hperm hbatch (call.now round)
  have haway := h.admit hinv hperm (call.now round)
  obtain ⟨-, -, hstarted, -⟩ := admitBatch_spec (call.now round) batch { s with ready }
  obtain ⟨hpersisted, hpublished, hadmitted, -⟩ :=
    admitBatch_key (x := x) (call.now round) batch { s with ready } hin.batch_nodup
  generalize admitBatch (call.now round) { s with ready } batch = s₁ at *
  obtain ⟨hwritten, hsynced, hadmitted'⟩ :=
    publishNodeStates_key (call.onNodeStatesChanged round .admission) (x := x) (s := s₁)
      (by rw [hpersisted, hpublished]; exact h.synced.persisted.trans h.synced.published.symm)
  have hsame := publishNodeStates_same (call.onNodeStatesChanged round .admission) s₁
  dsimp only
  rw [commitAdmission, if_pos hdur]
  split
  · rename_i s' e hpublish
    rw [hpublish] at hwritten hadmitted' hsame
    refine ⟨nofun, fun _ => ?_⟩
    dsimp only at hwritten hadmitted' hsame ⊢
    rw [hsame.started, hadmitted']
    rcases hwritten with hw | hw
    · rw [hstarted, hadmitted]
      exact (h.nodeFate.mono (List.subset_append_left ..)).congr (hw.trans (by rw [hpersisted]))
    · exact haway.nodeFate hw
  · rename_i s' hpublish
    rw [hpublish] at hsynced hadmitted' hsame
    exact executeBatch_key hg hc hdur hx (hin.of_same hsame)
      (fun v hv => hsame.started ▸ hstarted ▸ hfresh v hv) (hsynced rfl) (haway.of_same hsame hadmitted')

theorem runBatches_key (hg : WellFormed nodes g) (hc : Coherent call nodes) (hdur : call.isDurableRun = true)
    (hx : x ∈ nodes.map (·.id)) (fuel : Nat) : ∀ round s, SchedulerInv g s → Tracked m x start s →
      NodeFate m x start (runBatches call nodes g fuel round s).1.started
        (runBatches call nodes g fuel round s).1.admitted
        (runBatches call nodes g fuel round s).1.persisted := by
  induction fuel with
  | zero => exact fun _ _ _ h => h.nodeFate
  | succ fuel ih =>
    intro round s hinv h
    unfold runBatches
    split
    · exact h.nodeFate
    · rename_i hne
      have hkey := runBatch_key hg hc hdur hx round hinv hne h
      have hspec := (runBatch_spec hg hc round hinv hne).1
      split
      · rename_i s' e hrun
        rw [hrun] at hkey
        exact hkey.ends nofun
      · rename_i s' hrun
        rw [hrun] at hkey hspec
        exact ih (round + 1) s' (hspec rfl).1 (hkey.continues rfl)

/-! ## One call -/

variable {node : WorkflowNode}

theorem recovery_tracked (hg : WellFormed nodes g) (hnode : node ∈ nodes)
    (hstep : node.config.type = .step) (nodeStates : NodeStates) (resumingWait : Bool)
    (inDegree : OrdMap String Int) :
    Tracked (node.maxAttempts.getD 1) node.id (nodeStates.get? node.id)
      (initialScheduler nodeStates inDegree (recoverRunningNodes resumingWait g nodeStates inDegree)) := by
  have hrec := recoverRunningNodes_spec resumingWait g nodeStates inDegree
  have hdeclared : ∀ state node', Interrupted g nodeStates node.id state node' → node' = node :=
    fun state node' hi => Option.some.inj (hi.declared.symm.trans (hg.node node hnode))
  refine ⟨⟨rfl, rfl⟩, .inl ⟨nofun, rfl, fun hq => ?_⟩⟩
  rcases List.mem_append.mp hq with hq | hq
  · obtain ⟨-, state, node', hi, hcomposite⟩ := hrec.composites _ hq
    rw [hdeclared state node' hi, hstep] at hcomposite
    cases hcomposite
  · refine (hrec.recovered _ hq).imp_right ?_
    rintro ⟨hqueued, state, node', hi, hle⟩
    rw [hdeclared state node' hi] at hle
    refine ⟨hqueued, fun s hs => .inr (.inr ?_)⟩
    obtain rfl := Option.some.inj (hi.recorded.symm.trans hs)
    exact ⟨hi.running, hle⟩

theorem executeUnwrapped_fate (hnode : node ∈ nodes) (hstep : node.config.type = .step)
    (hdur : call.isDurableRun = true) (hstart : call.startFromNode = none) (hc : Coherent call nodes)
    (nodeStates : NodeStates) :
    NodeFate (node.maxAttempts.getD 1) node.id (nodeStates.get? node.id)
      (executeUnwrapped call nodes nodeStates).started (executeUnwrapped call nodes nodeStates).admitted
      (executeUnwrapped call nodes nodeStates).persisted ∧
    ((executeUnwrapped call nodes nodeStates).started.map Prod.fst).Nodup := by
  have hidle : NodeFate (node.maxAttempts.getD 1) node.id (nodeStates.get? node.id) [] [] nodeStates ∧
      (([] : List (String × NodeStates)).map Prod.fst).Nodup := ⟨.inl ⟨nofun, rfl⟩, List.nodup_nil⟩
  unfold executeUnwrapped
  split
  · exact hidle
  split
  · exact hidle
  rename_i g hg
  have hwf : WellFormed nodes g := buildGraph_ok hg
  dsimp only
  split
  · exact hidle
  · exact hidle
  simp only [hstart, Option.filter_none]
  split
  · exact hidle
  · have hinv := initialScheduler_inv hwf nodeStates call.resumingWait
    exact ⟨runBatches_key hwf hc hdur (List.mem_map_of_mem hnode) _ 0 _ hinv
      (recovery_tracked hwf hnode hstep nodeStates call.resumingWait _),
      (runBatches_spec hwf hc _ 0 _ hinv (by simp [initialScheduler])).started_nodup⟩

theorem executeUnwrapped_exhausted (hnode : node ∈ nodes)
    (hstep : node.config.type = .step) (hg : buildGraph nodes = .ok g) (ha : DepthFirst.Acyclic g.dependents)
    (hstart : call.startFromNode = none) (hlive : call.aborts 0 .start = false) {nodeStates : NodeStates}
    {state : NodeState} (hstate : nodeStates.get? node.id = some state) (hrunning : state.status = .running)
    (hspent : node.maxAttempts.getD 1 < state.attempt)
    (hdone : ∀ u, node.id ∈ g.dependents u → isDone nodeStates u = true) :
    ∃ first rest, (executeUnwrapped call nodes nodeStates).ending =
        .returned (exhaustedResult nodeStates (call.now 0) first rest) ∧
      (executeUnwrapped call nodes nodeStates).started = [] := by
  have hwf : WellFormed nodes g := buildGraph_ok hg
  have hmem : node.id ∈ g.inDegree.keys := hwf.ids ▸ List.mem_map_of_mem hnode
  have hmatch := updateInDegrees_spec hwf nodeStates
  have hrec := recoverRunningNodes_spec call.resumingWait g nodeStates
    (updateInDegreesForCompletedNodes nodeStates g)
  have hne := hrec.complete node.id (hmatch.keys ▸ hmem) state node (degree_zero hmatch hmem hdone)
    ⟨hstate, hwf.node node hnode, hrunning⟩ hspent hstep
  obtain ⟨first, rest, hexhausted⟩ := List.exists_cons_of_ne_nil hne
  refine ⟨first, rest, ?_⟩
  unfold executeUnwrapped
  rw [hlive, if_neg nofun, hg]
  simp only [hasCycle_of_acyclic hwf ha, hstart, Option.filter_none, hexhausted]
  exact ⟨trivial, trivial⟩

/-! ## Any number of calls -/

structure RunRecord where
  nodeStates : NodeStates
  starts : Nat

/-- The graph of a durable run is executed once more. In between, the states of other nodes may
change. A node that was started before has not failed: that would have ended the run. -/
inductive Execution (nodes : List WorkflowNode) (x : String) : RunRecord → DAGCall → RunRecord → Prop
  | execute {r : RunRecord} {call : DAGCall} {loaded : NodeStates} :
      call.isDurableRun = true → call.startFromNode = none → Coherent call nodes →
      loaded.get? x = r.nodeStates.get? x →
      (0 < r.starts → ∀ state ∈ loaded.get? x, state.status ≠ .failed) →
      Execution nodes x r call
        ⟨(executeUnwrapped call nodes loaded).persisted,
          r.starts + ((executeUnwrapped call nodes loaded).started.map Prod.fst).count x⟩

structure BudgetInv (maxAttempts : Nat) (x : String) (r : RunRecord) : Prop where
  bounded : r.starts ≤ maxAttempts + 1
  counted : 0 < r.starts → ∃ state, r.nodeStates.get? x = some state ∧ r.starts ≤ state.attempt ∧
    state.status ≠ .pending

theorem BudgetInv.step (hnode : node ∈ nodes) (hstep : node.config.type = .step)
    {r r' : RunRecord} (h : BudgetInv (node.maxAttempts.getD 1) node.id r)
    (hexec : Execution nodes node.id r call r') : BudgetInv (node.maxAttempts.getD 1) node.id r' := by
  obtain ⟨hdur, hstart, hc, hloaded, hfailed⟩ := hexec
  rename_i loaded
  obtain ⟨hfate, hnodup⟩ := executeUnwrapped_fate hnode hstep hdur hstart hc loaded
  have hcount := List.nodup_iff_count_le_one.mp hnodup node.id
  generalize executeUnwrapped call nodes loaded = execution at hfate hcount ⊢
  rcases hfate with ⟨hnot, hsame⟩ | ⟨-, hstartable, state, hstate, hcharge, hpending⟩
  · -- the node was not started, and its record has not changed
    rw [List.count_eq_zero_of_not_mem hnot, Nat.add_zero]
    exact ⟨h.bounded, fun hpos => by rw [hsame, hloaded]; exact h.counted hpos⟩
  · rcases Nat.eq_zero_or_pos r.starts with hzero | hpos
    · refine ⟨by dsimp only; omega, fun _ => ⟨state, hstate, by dsimp only; omega, hpending⟩⟩
    · -- a node that was started before starts again only from a running state with attempts left
      obtain ⟨before, hbefore, hle, hnp⟩ := h.counted hpos
      rw [hloaded, hbefore] at hfailed hstartable hcharge
      have hrun : before.attempt ≤ node.maxAttempts.getD 1 := by
        rcases hstartable before rfl with hp | hf | ⟨-, hmax⟩
        · exact absurd hp hnp
        · exact absurd hf (hfailed hpos before rfl)
        · exact hmax
      have hraise : before.attempt < state.attempt := hcharge
      refine ⟨by dsimp only; omega, fun _ => ⟨state, hstate, by dsimp only; omega, hpending⟩⟩

/-- However often workers die, a step with `maxAttempts = m` starts at most `m + 1` times. When
these starts are spent and the step is still recorded as running, the next execution that comes to
it starts nothing and returns the exhaustion failure. An execution that does not admit the step
leaves its record, and so its budget, alone. -/
theorem crash_recovery_budget (nodes : List WorkflowNode) (node : WorkflowNode) (hnode : node ∈ nodes)
    (hstep : node.config.type = .step) (initial : NodeStates) (calls : List DAGCall) (r : RunRecord)
    (hrun : Run (Execution nodes node.id) ⟨initial, 0⟩ calls r) :
    r.starts ≤ node.maxAttempts.getD 1 + 1 ∧
    (∀ (call : DAGCall) (g : DAGGraph) (loaded : NodeStates) (state : NodeState),
      r.starts = node.maxAttempts.getD 1 + 1 →
      loaded.get? node.id = r.nodeStates.get? node.id → loaded.get? node.id = some state →
      state.status = .running → buildGraph nodes = .ok g → DepthFirst.Acyclic g.dependents →
      (∀ u, node.id ∈ g.dependents u → isDone loaded u = true) →
      call.startFromNode = none → call.aborts 0 .start = false →
      ∃ first rest, (executeUnwrapped call nodes loaded).ending =
          .returned (exhaustedResult loaded (call.now 0) first rest) ∧
        (executeUnwrapped call nodes loaded).started = []) ∧
    ∀ (call : DAGCall) (loaded : NodeStates),
      call.isDurableRun = true → call.startFromNode = none → Coherent call nodes →
      node.id ∉ (executeUnwrapped call nodes loaded).admitted →
      (executeUnwrapped call nodes loaded).persisted.get? node.id = loaded.get? node.id ∧
      node.id ∉ (executeUnwrapped call nodes loaded).started.map Prod.fst := by
  have hinv : BudgetInv (node.maxAttempts.getD 1) node.id r :=
    Run.invariant (BudgetInv (node.maxAttempts.getD 1) node.id) ⟨Nat.zero_le _, fun h => absurd h (Nat.lt_irrefl 0)⟩
      (fun _ _ _ h hexec => h.step hnode hstep hexec) hrun
  refine ⟨hinv.bounded, fun call g loaded state hspent hloaded hstate hrunning hg ha hdone hstart hlive => ?_,
    fun call loaded hdur hstart hc hnot => ?_⟩
  · obtain ⟨state', hstate', hle, -⟩ := hinv.counted (by omega)
    rw [← hloaded, hstate] at hstate'
    obtain rfl := Option.some.inj hstate'
    exact executeUnwrapped_exhausted hnode hstep hg ha hstart hlive hstate hrunning (by omega) hdone
  · obtain ⟨hfate, -⟩ := executeUnwrapped_fate hnode hstep hdur hstart hc loaded
    rcases hfate with ⟨h1, h2⟩ | ⟨h1, -⟩
    · exact ⟨h2, h1⟩
    · exact absurd h1 hnot

/-- The worker dies while the first batch runs. -/
def crashingCall : DAGCall := { smoothCall with aborts := fun _ point => point = .execution }

def oneStep : WorkflowNode := { id := "a", config := .step }

def afterOneCrash : RunRecord := ⟨(executeUnwrapped crashingCall [oneStep] .empty).persisted, 1⟩

def afterTwoCrashes : RunRecord :=
  ⟨(executeUnwrapped crashingCall [oneStep] afterOneCrash.nodeStates).persisted, 2⟩

theorem run_twoCrashes :
    Run (Execution [oneStep] "a") ⟨.empty, 0⟩ [crashingCall, crashingCall] afterTwoCrashes := by
  have hc : Coherent crashingCall [oneStep] := smoothCall_coherent [oneStep]
  have h1 : Execution [oneStep] "a" ⟨.empty, 0⟩ crashingCall afterOneCrash :=
    @Execution.execute _ _ ⟨.empty, 0⟩ _ .empty rfl rfl hc rfl fun h => absurd h (Nat.lt_irrefl 0)
  have h2 : Execution [oneStep] "a" afterOneCrash crashingCall afterTwoCrashes :=
    @Execution.execute _ _ afterOneCrash _ afterOneCrash.nodeStates rfl rfl hc rfl (by decide)
  exact .snoc (.snoc .nil h1) h2

def oneStepGraph : DAGGraph where
  adjList := ⟨[("a", [])], by decide⟩
  inDegree := ⟨[("a", 0)], by decide⟩
  nodeMap := ⟨[("a", oneStep)], by decide⟩

theorem oneStepGraph_no_dependents (u : String) : oneStepGraph.dependents u = [] := by
  by_cases hu : u = "a"
  · subst hu; rfl
  · simp [DAGGraph.dependents, oneStepGraph, OrdMap.get?, Ne.symm hu]

/-- A default step starts twice, and the third execution gives up on it. -/
theorem crash_recovery_budget_twice :
    afterTwoCrashes.starts = 2 ∧ afterTwoCrashes.starts ≤ oneStep.maxAttempts.getD 1 + 1 ∧
    ∃ first rest, (executeUnwrapped smoothCall [oneStep] afterTwoCrashes.nodeStates).ending =
      .returned (exhaustedResult afterTwoCrashes.nodeStates 0 first rest) ∧
    (executeUnwrapped smoothCall [oneStep] afterTwoCrashes.nodeStates).started = [] := by
  obtain ⟨hbound, hexhausted, -⟩ :=
    crash_recovery_budget [oneStep] oneStep (by simp) rfl .empty _ _ run_twoCrashes
  have hacyclic : DepthFirst.Acyclic oneStepGraph.dependents :=
    DepthFirst.acyclic_of_rank (fun _ => 0) fun u v hv => by simp [oneStepGraph_no_dependents] at hv
  refine ⟨rfl, hbound, hexhausted smoothCall oneStepGraph afterTwoCrashes.nodeStates
    { nodeId := "a", status := .running, attempt := 2, startedAt := some 0 } rfl rfl rfl rfl rfl hacyclic
    (fun u hu => ?_) rfl rfl⟩
  simp [oneStepGraph_no_dependents] at hu

end Veryfront.Workflow
