import Mathlib.Logic.Relation
import Mathlib.Data.List.Basic

/-!
# Depth-first search for a cycle

The usual search with a set of visited vertices and the set of vertices on the recursion stack: a
neighbour that is on the stack closes a cycle. The recursion is bounded by fuel. As every call
visits a new vertex, as many calls as there are vertices are always enough.
-/

namespace Veryfront.Lib.DepthFirst

variable {κ : Type*} [DecidableEq κ]

structure Search (κ : Type*) where
  visited : List κ
  recursionStack : List κ

/-- Goes through the neighbours of one vertex, given how to search from an unvisited one. -/
def visitAll (visit : Search κ → κ → Option (Bool × Search κ)) :
    Search κ → List κ → Option (Bool × Search κ)
  | s, [] => some (false, s)
  | s, v :: vs =>
    if v ∈ s.visited then
      if v ∈ s.recursionStack then some (true, s) else visitAll visit s vs
    else
      match visit s v with
      | some (false, s') => visitAll visit s' vs
      | r => r

/-- Searches from an unvisited vertex. Answers whether a cycle was found, or `none` without fuel. -/
def visit (adj : κ → List κ) : Nat → Search κ → κ → Option (Bool × Search κ)
  | 0, _, _ => none
  | fuel + 1, s, v =>
    match visitAll (visit adj fuel) ⟨v :: s.visited, v :: s.recursionStack⟩ (adj v) with
    | some (false, s') => some (false, ⟨s'.visited, s'.recursionStack.filter (· ≠ v)⟩)
    | r => r

def searchFrom (adj : κ → List κ) (fuel : Nat) : Search κ → List κ → Option Bool
  | _, [] => some false
  | s, v :: vs =>
    if v ∈ s.visited then searchFrom adj fuel s vs
    else
      match visit adj fuel s v with
      | some (false, s') => searchFrom adj fuel s' vs
      | some (true, _) => some true
      | none => none

/-! ## Enough fuel -/

def unvisited (ks : List κ) (s : Search κ) : Nat := ks.countP (· ∉ s.visited)

variable {ks : List κ} {s : Search κ}

theorem unvisited_mono {t : Search κ} (h : s.visited ⊆ t.visited) :
    unvisited ks t ≤ unvisited ks s := by
  refine List.countP_mono_left fun v _ hv => ?_
  simp only [decide_eq_true_eq] at hv ⊢
  exact fun hs => hv (h hs)

theorem unvisited_pos {v : κ} (hk : v ∈ ks) (hv : v ∉ s.visited) :
    0 < unvisited ks s :=
  List.countP_pos_iff.mpr ⟨v, hk, by simpa using hv⟩

theorem unvisited_lt {t : Search κ} {v : κ} (hk : v ∈ ks) (hv : v ∉ s.visited)
    (ht : t.visited = v :: s.visited) : unvisited ks t < unvisited ks s := by
  have hs : ks.countP (· ∉ s.visited) =
      ks.countP (fun w => decide (w ∉ t.visited)) + ks.countP (· = v) := by
    rw [ht]
    clear hk
    induction ks with
    | nil => rfl
    | cons w ks ih =>
      simp only [List.countP_cons, ih, List.mem_cons]
      by_cases hw : w = v
      · subst hw; simp [hv]; omega
      · simp [hw]; omega
  have hp : 0 < ks.countP (· = v) := List.countP_pos_iff.mpr ⟨v, hk, by simp⟩
  unfold unvisited
  omega

theorem visitAll_total {n : Nat} {visit : Search κ → κ → Option (Bool × Search κ)}
    (hvisit : ∀ s v, v ∈ ks → v ∉ s.visited → unvisited ks s ≤ n →
      ∃ r, visit s v = some r ∧ s.visited ⊆ r.2.visited) (vs : List κ) :
    ∀ s, vs ⊆ ks → unvisited ks s ≤ n →
      ∃ r, visitAll visit s vs = some r ∧ s.visited ⊆ r.2.visited := by
  induction vs with
  | nil => exact fun s _ _ => ⟨_, rfl, fun _ h => h⟩
  | cons v vs ih =>
    intro s hks hn
    have hvs : vs ⊆ ks := fun w hw => hks (List.mem_cons_of_mem _ hw)
    unfold visitAll
    split
    · split
      · exact ⟨_, rfl, fun _ h => h⟩
      · exact ih s hvs hn
    · rename_i hv
      obtain ⟨⟨found, s'⟩, hr, hsub⟩ := hvisit s v (hks List.mem_cons_self) hv hn
      rw [hr]
      cases found with
      | true => exact ⟨_, rfl, hsub⟩
      | false =>
        obtain ⟨r, hr', hsub'⟩ := ih s' hvs (Nat.le_trans (unvisited_mono hsub) hn)
        exact ⟨r, hr', fun _ h => hsub' (hsub h)⟩

theorem visit_total {adj : κ → List κ} (hadj : ∀ v, adj v ⊆ ks) (fuel : Nat) :
    ∀ s v, v ∈ ks → v ∉ s.visited → unvisited ks s ≤ fuel →
      ∃ r, visit adj fuel s v = some r ∧ s.visited ⊆ r.2.visited := by
  induction fuel with
  | zero =>
    intro s v hk hv hn
    exact absurd (unvisited_pos hk hv) (by omega)
  | succ fuel ih =>
    intro s v hk hv hn
    have hlt := unvisited_lt (t := ⟨v :: s.visited, v :: s.recursionStack⟩) hk hv rfl
    obtain ⟨⟨found, s'⟩, hr, hsub⟩ := visitAll_total ih (adj v)
      ⟨v :: s.visited, v :: s.recursionStack⟩ (hadj v) (by omega)
    have hs : s.visited ⊆ s'.visited := fun w hw => hsub (List.mem_cons_of_mem _ hw)
    unfold visit
    rw [hr]
    cases found with
    | true => exact ⟨_, rfl, hs⟩
    | false => exact ⟨_, rfl, hs⟩

theorem searchFrom_total {adj : κ → List κ} (hadj : ∀ v, adj v ⊆ ks) {fuel : Nat}
    (hf : ks.length ≤ fuel) (vs : List κ) : ∀ s, vs ⊆ ks → ∃ b, searchFrom adj fuel s vs = some b := by
  induction vs with
  | nil => exact fun _ _ => ⟨_, rfl⟩
  | cons v vs ih =>
    intro s hks
    have hvs : vs ⊆ ks := fun w hw => hks (List.mem_cons_of_mem _ hw)
    unfold searchFrom
    split
    · exact ih s hvs
    · rename_i hv
      have hn : unvisited ks s ≤ fuel := Nat.le_trans List.countP_le_length hf
      obtain ⟨⟨found, s'⟩, hr, -⟩ := visit_total hadj fuel s v (hks List.mem_cons_self) hv hn
      rw [hr]
      cases found with
      | true => exact ⟨_, rfl⟩
      | false => exact ih s' hvs

/-! ## Nothing is found in an acyclic graph -/

def Acyclic (adj : κ → List κ) : Prop := ∀ v, ¬ Relation.TransGen (fun u w => w ∈ adj u) v v

variable {adj : κ → List κ}

omit [DecidableEq κ] in
theorem acyclic_of_rank (rank : κ → Nat) (h : ∀ u v, v ∈ adj u → rank u < rank v) : Acyclic adj := by
  intro v hv
  have hlt : ∀ w, Relation.TransGen (fun u w => w ∈ adj u) v w → rank v < rank w := by
    intro w hw
    induction hw with
    | single huv => exact h _ _ huv
    | tail _ huv ih => exact Nat.lt_trans ih (h _ _ huv)
  exact Nat.lt_irrefl _ (hlt v hv)

/-- `u` reaches every vertex that is looked at, and every vertex on the stack reaches `u`. -/
theorem visitAll_acyclic (ha : Acyclic adj) {visit : Search κ → κ → Option (Bool × Search κ)}
    (hvisit : ∀ s v r, (∀ w ∈ s.recursionStack, Relation.TransGen (fun u w => w ∈ adj u) w v) →
      visit s v = some r → r.1 = false ∧ r.2.recursionStack ⊆ s.recursionStack) {u : κ} (vs : List κ) :
    ∀ s r, vs ⊆ adj u →
      (∀ w ∈ s.recursionStack, Relation.ReflTransGen (fun u w => w ∈ adj u) w u) →
      visitAll visit s vs = some r → r.1 = false ∧ r.2.recursionStack ⊆ s.recursionStack := by
  induction vs with
  | nil =>
    rintro s r - - hr
    obtain rfl := Option.some.inj hr
    exact ⟨rfl, fun _ h => h⟩
  | cons v vs ih =>
    intro s r hvs hs hr
    have hv : v ∈ adj u := hvs List.mem_cons_self
    have hrest : vs ⊆ adj u := fun w hw => hvs (List.mem_cons_of_mem _ hw)
    have hreach : ∀ w ∈ s.recursionStack, Relation.TransGen (fun u w => w ∈ adj u) w v :=
      fun w hw => Relation.TransGen.tail' (hs w hw) hv
    unfold visitAll at hr
    split at hr
    · split at hr
      · -- a neighbour on the stack would reach itself
        rename_i hstack
        exact absurd (hreach v hstack) (ha v)
      · exact ih s r hrest hs hr
    · split at hr
      · rename_i s' hfound
        obtain ⟨-, hsub⟩ := hvisit s v _ hreach hfound
        obtain ⟨h1, h2⟩ := ih s' r hrest (fun w hw => hs w (hsub hw)) hr
        exact ⟨h1, fun _ h => hsub (h2 h)⟩
      · exact hvisit s v r hreach hr

theorem visit_acyclic (ha : Acyclic adj) (fuel : Nat) :
    ∀ s v r, (∀ w ∈ s.recursionStack, Relation.TransGen (fun u w => w ∈ adj u) w v) →
      visit adj fuel s v = some r → r.1 = false ∧ r.2.recursionStack ⊆ s.recursionStack := by
  induction fuel with
  | zero =>
    intro s v r _ hr
    simp [visit] at hr
  | succ fuel ih =>
    intro s v r hs hr
    have hstack : ∀ w ∈ v :: s.recursionStack,
        Relation.ReflTransGen (fun u w => w ∈ adj u) w v := by
      intro w hw
      rcases List.mem_cons.mp hw with rfl | hw
      · exact .refl
      · exact (hs w hw).to_reflTransGen
    have hall := visitAll_acyclic ha ih (u := v) (adj v) ⟨v :: s.visited, v :: s.recursionStack⟩
    unfold visit at hr
    split at hr
    · rename_i s' hfound
      obtain ⟨-, hsub⟩ := hall _ (fun _ h => h) hstack hfound
      obtain rfl := Option.some.inj hr
      refine ⟨rfl, fun w hw => ?_⟩
      obtain ⟨hw, hne⟩ := List.mem_filter.mp hw
      rcases List.mem_cons.mp (hsub hw) with rfl | hw
      · simp at hne
      · exact hw
    · rename_i hne
      obtain ⟨found, s'⟩ := r
      obtain ⟨hfound, -⟩ := hall _ (fun _ h => h) hstack hr
      exact absurd (hfound ▸ hr) (hne s')

theorem searchFrom_acyclic (ha : Acyclic adj) {fuel : Nat} (vs : List κ) :
    ∀ s, s.recursionStack = [] → searchFrom adj fuel s vs ≠ some true := by
  induction vs with
  | nil => simp [searchFrom]
  | cons v vs ih =>
    intro s hs
    unfold searchFrom
    split
    · exact ih s hs
    · have hvisit := visit_acyclic ha fuel s v
      split
      · rename_i s' hr
        obtain ⟨-, hsub⟩ := hvisit _ (by simp [hs]) hr
        exact ih s' (List.subset_nil.mp (hs ▸ hsub))
      · rename_i s' hr
        obtain ⟨hfalse, -⟩ := hvisit _ (by simp [hs]) hr
        simp at hfalse
      · simp

/-! ## Whatever is searched without a find is acyclic -/

/-- The vertices that are left lead only to vertices that are left, and lie on no cycle. -/
structure Settled (adj : κ → List κ) (s : Search κ) : Prop where
  stack : s.recursionStack ⊆ s.visited
  closed : ∀ u ∈ s.visited, u ∉ s.recursionStack → ∀ w ∈ adj u, w ∈ s.visited ∧ w ∉ s.recursionStack
  acyclic : ∀ u ∈ s.visited, u ∉ s.recursionStack → ¬ Relation.TransGen (fun u w => w ∈ adj u) u u

omit [DecidableEq κ] in
theorem Settled.path (h : Settled adj s) {u w : κ} (hu : u ∈ s.visited) (hleft : u ∉ s.recursionStack)
    (hpath : Relation.TransGen (fun u w => w ∈ adj u) u w) : w ∈ s.visited ∧ w ∉ s.recursionStack := by
  induction hpath with
  | single hedge => exact h.closed u hu hleft _ hedge
  | tail _ hedge ih => exact h.closed _ ih.1 ih.2 _ hedge

/-- A search without a find: more is settled, and the stack is as before. -/
structure Finishes (adj : κ → List κ) (s t : Search κ) : Prop where
  visited : s.visited ⊆ t.visited
  stack : ∀ w, w ∈ t.recursionStack ↔ w ∈ s.recursionStack
  settled : Settled adj t

omit [DecidableEq κ] in
theorem Finishes.refl (h : Settled adj s) : Finishes adj s s := ⟨fun _ hw => hw, fun _ => .rfl, h⟩

omit [DecidableEq κ] in
theorem Finishes.trans {t r : Search κ} (h : Finishes adj s t) (g : Finishes adj t r) : Finishes adj s r :=
  ⟨fun _ hw => g.visited (h.visited hw), fun w => (g.stack w).trans (h.stack w), g.settled⟩

theorem visitAll_settles {visit : Search κ → κ → Option (Bool × Search κ)}
    (hvisit : ∀ s v t, Settled adj s → v ∉ s.visited → visit s v = some (false, t) →
      Finishes adj s t ∧ v ∈ t.visited) (vs : List κ) :
    ∀ s t, Settled adj s → visitAll visit s vs = some (false, t) →
      Finishes adj s t ∧ ∀ v ∈ vs, v ∈ t.visited ∧ v ∉ t.recursionStack := by
  induction vs with
  | nil =>
    intro s t hs hr
    obtain rfl : s = t := (Prod.mk.inj (Option.some.inj hr)).2
    exact ⟨.refl hs, fun _ hv => absurd hv List.not_mem_nil⟩
  | cons v vs ih =>
    intro s t hs hr
    have hleaves {u : Search κ} (hu : Finishes adj s u) (hv : v ∈ u.visited) (hstack : v ∉ s.recursionStack)
        (hrest : visitAll visit u vs = some (false, t)) :
        Finishes adj s t ∧ ∀ w ∈ v :: vs, w ∈ t.visited ∧ w ∉ t.recursionStack := by
      obtain ⟨hfinish, hall⟩ := ih u t hu.settled hrest
      refine ⟨hu.trans hfinish, fun w hw => ?_⟩
      rcases List.mem_cons.mp hw with rfl | hw
      · exact ⟨hfinish.visited hv, fun hmem => hstack ((hu.stack _).mp ((hfinish.stack _).mp hmem))⟩
      · exact hall w hw
    unfold visitAll at hr
    split at hr
    · rename_i hv
      split at hr
      · cases hr
      · rename_i hstack
        exact hleaves (.refl hs) hv hstack hr
    · rename_i hv
      split at hr
      · rename_i u hfound
        obtain ⟨hu, hmem⟩ := hvisit s v u hs hv hfound
        exact hleaves hu hmem (fun hstack => hv (hs.stack hstack)) hr
      · rename_i hne
        exact absurd hr (hne t)

theorem visit_settles (fuel : Nat) : ∀ s v t, Settled adj s → v ∉ s.visited → visit adj fuel s v = some (false, t) →
    Finishes adj s t ∧ v ∈ t.visited := by
  induction fuel with
  | zero =>
    intro s v t _ _ hr
    cases hr
  | succ fuel ih =>
    intro s v t hs hv hr
    have hentered : Settled adj ⟨v :: s.visited, v :: s.recursionStack⟩ := by
      refine ⟨List.cons_subset_cons v hs.stack, fun u hu hleft w hw => ?_, fun u hu hleft => ?_⟩
      · rw [List.mem_cons, not_or] at hleft
        obtain ⟨hvisited, hnever⟩ := hs.closed u ((List.mem_cons.mp hu).resolve_left hleft.1) hleft.2 w hw
        refine ⟨List.mem_cons_of_mem _ hvisited, fun hmem => ?_⟩
        rcases List.mem_cons.mp hmem with rfl | hmem
        · exact hv hvisited
        · exact hnever hmem
      · rw [List.mem_cons, not_or] at hleft
        exact hs.acyclic u ((List.mem_cons.mp hu).resolve_left hleft.1) hleft.2
    unfold visit at hr
    split at hr
    · rename_i u hfound
      obtain rfl := (Prod.mk.inj (Option.some.inj hr)).2
      obtain ⟨hfinish, hall⟩ := visitAll_settles ih (adj v) _ u hentered hfound
      have hv' : v ∈ u.visited := hfinish.visited List.mem_cons_self
      have hon : v ∈ u.recursionStack := (hfinish.stack v).mpr List.mem_cons_self
      have hstack (w : κ) : w ∈ u.recursionStack.filter (· ≠ v) ↔ w ∈ s.recursionStack := by
        rw [List.mem_filter, hfinish.stack w, List.mem_cons, decide_eq_true_eq]
        refine ⟨fun hw => hw.1.resolve_left hw.2, fun hw => ⟨.inr hw, ?_⟩⟩
        rintro rfl
        exact hv (hs.stack hw)
      refine ⟨⟨fun w hw => hfinish.visited (List.mem_cons_of_mem _ hw), hstack, ?_⟩, hv'⟩
      have hleft {w : κ} (hw : w ∉ u.recursionStack.filter (· ≠ v)) (hne : w ≠ v) : w ∉ u.recursionStack :=
        fun hmem => hw (List.mem_filter.mpr ⟨hmem, by rwa [decide_eq_true_eq]⟩)
      have hfiltered {w : κ} (hw : w ∉ u.recursionStack) : w ∉ u.recursionStack.filter (· ≠ v) :=
        fun hmem => hw (List.mem_filter.mp hmem).1
      refine ⟨fun w hw => hfinish.settled.stack (List.mem_filter.mp hw).1, fun w hw hgone x hx => ?_,
        fun w hw hgone hcycle => ?_⟩
      · by_cases hne : w = v
        · subst hne
          exact ⟨(hall x hx).1, hfiltered (hall x hx).2⟩
        · obtain ⟨hvisited, hnever⟩ := hfinish.settled.closed w hw (hleft hgone hne) x hx
          exact ⟨hvisited, hfiltered hnever⟩
      · by_cases hne : w = v
        · subst hne
          -- the first step of the cycle leaves for good
          obtain ⟨x, hx, hback⟩ := Relation.TransGen.head'_iff.mp hcycle
          obtain ⟨hvisited, hnever⟩ := hall x hx
          rcases Relation.reflTransGen_iff_eq_or_transGen.mp hback with heq | hback
          · exact hnever (heq ▸ hon)
          · exact (hfinish.settled.path hvisited hnever hback).2 hon
        · exact hfinish.settled.acyclic w hw (hleft hgone hne) hcycle
    · rename_i hne
      exact absurd hr (hne t)

theorem searchFrom_settles {fuel : Nat} (vs : List κ) : ∀ s, Settled adj s → s.recursionStack = [] →
    searchFrom adj fuel s vs = some false →
    ∀ v, v ∈ s.visited ∨ v ∈ vs → ¬ Relation.TransGen (fun u w => w ∈ adj u) v v := by
  induction vs with
  | nil =>
    intro s hs hempty _ v hv
    exact hs.acyclic v (hv.resolve_right List.not_mem_nil) (hempty ▸ List.not_mem_nil)
  | cons v vs ih =>
    intro s hs hempty hr w hw
    unfold searchFrom at hr
    split at hr
    · rename_i hvisited
      refine ih s hs hempty hr w ?_
      rcases hw with hw | hw
      · exact .inl hw
      · rcases List.mem_cons.mp hw with rfl | hw
        · exact .inl hvisited
        · exact .inr hw
    · rename_i hv
      split at hr
      · rename_i t hfound
        obtain ⟨hfinish, hmem⟩ := visit_settles fuel s v t hs hv hfound
        have hnone : t.recursionStack = [] := List.eq_nil_iff_forall_not_mem.mpr fun x hx => by
          have := (hfinish.stack x).mp hx
          rw [hempty] at this
          exact List.not_mem_nil this
        refine ih t hfinish.settled hnone hr w ?_
        rcases hw with hw | hw
        · exact .inl (hfinish.visited hw)
        · rcases List.mem_cons.mp hw with rfl | hw
          · exact .inl hmem
          · exact .inr hw
      · cases hr
      · cases hr

/-- The search finds nothing only where there is nothing, if every edge leaves one of the vertices given. -/
theorem acyclic_of_searchFrom {fuel : Nat} {vs : List κ} (hsource : ∀ u w, w ∈ adj u → u ∈ vs)
    (hr : searchFrom adj fuel ⟨[], []⟩ vs = some false) : Acyclic adj := by
  intro v hv
  obtain ⟨w, hw, -⟩ := Relation.TransGen.head'_iff.mp hv
  have hstart : Settled adj ⟨[], []⟩ :=
    ⟨fun _ h => h, fun u hu => absurd hu List.not_mem_nil, fun u hu => absurd hu List.not_mem_nil⟩
  exact searchFrom_settles vs _ hstart rfl hr v (.inr (hsource v w hw)) hv

/-! ## An edge into a sink -/

omit [DecidableEq κ] in
theorem acyclic_of_sink {adj' : κ → List κ} {source sink : κ} (ha : Acyclic adj) (hne : source ≠ sink)
    (hsink : adj' sink = []) (hadj : ∀ u w, w ∈ adj' u → w ∈ adj u ∨ (u = source ∧ w = sink)) : Acyclic adj' := by
  have hpath {u w : κ} (h : Relation.TransGen (fun u w => w ∈ adj' u) u w) :
      Relation.TransGen (fun u w => w ∈ adj u) u w ∨ w = sink := by
    induction h with
    | single hedge => exact (hadj _ _ hedge).imp .single And.right
    | tail _ hedge ih =>
      rcases ih with hold | rfl
      · exact (hadj _ _ hedge).imp hold.tail And.right
      · rw [hsink] at hedge
        exact absurd hedge List.not_mem_nil
  intro v hv
  rcases hpath hv with hold | rfl
  · exact ha v hold
  · obtain ⟨w, hw, -⟩ := Relation.TransGen.head'_iff.mp hv
    rw [hsink] at hw
    exact List.not_mem_nil hw

end Veryfront.Lib.DepthFirst
