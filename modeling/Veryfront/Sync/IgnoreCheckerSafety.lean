import Veryfront.Sync.IgnoreChecker

/-!
# Candidates are classified before they are used

In an orderly run every candidate is ignored, or not, as the present context says. In other runs a path can be taken for
classified while its question has failed or waits.
-/

namespace Veryfront.Sync

open Lib

/-! ## Paths -/

theorem normalizeIgnorePath_idem (path : Text) : normalizeIgnorePath (normalizeIgnorePath path) = normalizeIgnorePath path := by
  rw [normalizeIgnorePath, normalizeIgnorePath, List.map_map]
  refine List.map_congr_left fun c _ => ?_
  dsimp only [Function.comp]
  by_cases hc : c = backslash
  · subst hc
    rfl
  · simp only [if_neg hc]

theorem mem_foldl_addGitIgnoredPath {paths set : List Text} {x : Text} : x ∈ paths.foldl addGitIgnoredPath set ↔
    x ∈ set ∨ x ≠ [] ∧ ∃ path ∈ paths, x = trimTrailingSlashes (normalizeIgnorePath path) := by
  induction paths generalizing set with
  | nil => simp
  | cons path paths ih =>
    have hadd : x ∈ addGitIgnoredPath set path ↔ x ∈ set ∨ x ≠ [] ∧ x = trimTrailingSlashes (normalizeIgnorePath path) := by
      rw [addGitIgnoredPath]
      split
      · rename_i hskip
        refine ⟨.inl, fun h => h.elim id ?_⟩
        rintro ⟨hne, rfl⟩
        exact hskip.resolve_left hne
      · rename_i hskip
        rw [List.mem_append, List.mem_singleton]
        refine or_congr_right ⟨?_, And.right⟩
        rintro rfl
        exact ⟨fun h => hskip (.inl h), rfl⟩
    rw [List.foldl_cons, ih, hadd, or_assoc, ← and_or_left]
    simp only [List.mem_cons, exists_eq_or_imp]

variable {path : Text}

theorem isGitIgnored_iff {set : List Text} :
    isGitIgnored set path = true ↔ ∃ cover ∈ path :: parentPaths path, cover ∈ set := by
  rw [isGitIgnored]
  split
  · rename_i hempty
    obtain rfl := List.length_eq_zero_iff.mp hempty
    simp
  split
  · rename_i hmem
    simp [hmem]
  · rename_i hmem
    simp [hmem]

variable {checker : IgnoreRules}

theorem lastMatchedRule_eq_none (h : checker.Unmatched path) :
    checker.lastMatchedRule (normalizeIgnorePath path) = none := by
  rw [IgnoreRules.Unmatched] at h
  rw [IgnoreRules.lastMatchedRule]
  generalize checker.rules = rules at h
  induction rules with
  | nil => rfl
  | cons rule rules ih =>
    rw [List.foldl_cons, h rule List.mem_cons_self, if_neg Bool.false_ne_true]
    exact ih fun other hother => h other (List.mem_cons_of_mem _ hother)

theorem isIgnored_iff {set : List Text} (h : checker.Unmatched path) :
    checker.isIgnored set path false = true ↔
      checker.isProtectedPath (normalizeIgnorePath path) = true ∨ ∃ cover ∈ covers path, cover ∈ set := by
  rw [IgnoreRules.isIgnored, lastMatchedRule_eq_none h, covers, ← isGitIgnored_iff]
  cases checker.isProtectedPath (normalizeIgnorePath path) <;> simp

theorem mem_parentPaths {front rest : Text} (h : front ≠ []) : front ∈ parentPaths (front ++ slash :: rest) := by
  refine List.mem_map.mpr ⟨front.length, ?_, List.take_left⟩
  rw [List.mem_filter, List.mem_range, decide_eq_true_eq]
  exact ⟨by simp, List.length_pos_iff.mpr h, by simp⟩

theorem trim_mem_covers (h : NamesSomething path) :
    trimTrailingSlashes (normalizeIgnorePath path) ∈ covers path := by
  rw [NamesSomething] at h
  rw [covers]
  generalize normalizeIgnorePath path = normalized at h
  have hsplit : trimTrailingSlashes normalized ++ normalized.rtakeWhile (· = slash) = normalized :=
    List.rdropWhile_append_rtakeWhile
  cases hrest : normalized.rtakeWhile (· = slash) with
  | nil =>
    rw [hrest, List.append_nil] at hsplit
    rw [hsplit]
    exact List.mem_cons_self
  | cons c rest =>
    have hslash : c ∈ normalized.rtakeWhile (· = slash) := hrest ▸ List.mem_cons_self
    obtain rfl : c = slash := of_decide_eq_true (List.mem_rtakeWhile_imp (p := fun c => decide (c = slash)) hslash)
    rw [hrest] at hsplit
    have hmem : trimTrailingSlashes normalized ∈ parentPaths (trimTrailingSlashes normalized ++ slash :: rest) := mem_parentPaths h
    rw [hsplit] at hmem
    exact List.mem_cons_of_mem _ hmem

/-! ## Marks -/

structure Marked (checked paths : List Text) (marks : List Text × List Text) : Prop where
  all : ∀ path, path ∈ marks.1 ↔ path ∈ checked ∨ path ∈ marks.2
  pending : ∀ path, path ∈ marks.2 ↔ path ≠ [] ∧ path ∉ checked ∧ path ∈ paths.map normalizeIgnorePath

theorem marked_markCandidates (checked paths : List Text) : Marked checked paths (markCandidates checked paths) := by
  induction paths using List.reverseRecOn with
  | nil => exact ⟨by simp [markCandidates], by simp [markCandidates]⟩
  | append_singleton paths path ih =>
    have hstep : markCandidates checked (paths ++ [path]) = markCandidate (markCandidates checked paths) path := List.foldl_concat ..
    rw [hstep]
    change Marked _ _ (markCandidate (markCandidates checked paths) path)
    generalize markCandidates checked paths = marks at ih
    rw [markCandidate]
    split
    · rename_i hskip
      refine ⟨ih.all, fun x => (ih.pending x).trans ?_⟩
      rw [List.map_append, List.mem_append, List.map_singleton, List.mem_singleton]
      refine and_congr_right fun hne => and_congr_right fun hchecked => ⟨.inl, fun h => h.elim id ?_⟩
      rintro rfl
      exact ((ih.pending _).mp (((ih.all _).mp (hskip.resolve_left hne)).resolve_left hchecked)).2.2
    · rename_i hnew
      have hnew' := fun h => hnew (.inr ((ih.all _).mpr h))
      refine ⟨fun x => ?_, fun x => ?_⟩
      · rw [List.mem_append, List.mem_append, ih.all, or_assoc]
      · rw [List.map_append, List.mem_append, List.mem_append, List.map_singleton, List.mem_singleton, ih.pending]
        constructor
        · rintro (⟨hne, hchecked, hmem⟩ | rfl)
          · exact ⟨hne, hchecked, .inl hmem⟩
          · exact ⟨fun h => hnew (.inl h), fun h => hnew' (.inl h), .inr rfl⟩
        · rintro ⟨hne, hchecked, hmem | rfl⟩
          · exact .inl ⟨hne, hchecked, hmem⟩
          · exact .inr rfl

/-! ## The invariant -/

variable {κ : Type}

def Classified (s : State κ) (path : Text) : Prop :=
  s.checkGitIgnoredPaths.reports path = true → trimTrailingSlashes path ≠ [] → trimTrailingSlashes path ∈ s.gitIgnoredPaths

def Asked (s : State κ) (path : Text) : Prop :=
  ∃ call waiting query, s.calls call = some waiting ∧ waiting.query? = some query ∧ path ∈ query.pending

structure Coherent (s : State κ) : Prop where
  /-- Every question is put to the present context. -/
  context : ∀ call waiting query, s.calls call = some waiting → waiting.query? = some query → query.context = s.checkGitIgnoredPaths
  pending : ∀ call waiting query, s.calls call = some waiting → waiting.query? = some query → query.pending ⊆ s.checkedGitCandidates
  candidate : ∀ path ∈ s.checkedGitCandidates, normalizeIgnorePath path = path ∧ path ≠ []
  checked : ∀ path ∈ s.checkedGitCandidates, path ∈ s.record.failed ∨ Asked s path ∨ Classified s path
  resolving : ∀ call paths query, s.calls call = some (.resolving paths query) → ∀ path ∈ paths, normalizeIgnorePath path ≠ [] →
    normalizeIgnorePath path ∈ s.checkedGitCandidates ∧
      (normalizeIgnorePath path ∈ query.pending ∨ Classified s (normalizeIgnorePath path))
  rechecking : ∀ call query, s.calls call = some (.rechecking query) → ∀ path ∈ s.record.resolved, normalizeIgnorePath path ≠ [] →
    normalizeIgnorePath path ∈ query.pending ∨ Classified s (normalizeIgnorePath path)
  resolved : ∀ path ∈ s.record.resolved, normalizeIgnorePath path ≠ [] → normalizeIgnorePath path ∈ s.checkedGitCandidates
  due : ∀ path ∈ s.record.due, normalizeIgnorePath path ≠ [] → Classified s (normalizeIgnorePath path)
  refreshed : s.record.refreshed = true → ∀ path ∈ s.record.resolved, normalizeIgnorePath path ≠ [] →
    Classified s (normalizeIgnorePath path)
  listed : ∀ x ∈ toGitIgnoredPathSet s.checkGitIgnoredPaths.ignoredPaths, x ∈ s.gitIgnoredPaths
  nothing_else : ∀ x ∈ s.gitIgnoredPaths, x ∈ toGitIgnoredPathSet s.checkGitIgnoredPaths.ignoredPaths ∨
    ∃ candidate ∈ s.checkedGitCandidates, s.checkGitIgnoredPaths.reports candidate = true ∧ x = trimTrailingSlashes candidate

theorem coherent_start (gitContext : GitIgnoreContext) (loadGitIgnoreContext : Bool) :
    Coherent (start gitContext loadGitIgnoreContext : State κ) where
  context := nofun
  pending := nofun
  candidate := nofun
  checked := nofun
  resolving := nofun
  rechecking := nofun
  resolved := nofun
  due := nofun
  refreshed := nofun
  listed _ hx := hx
  nothing_else _ hx := .inl hx

variable {s : State κ}

theorem ignored_of_classified (hclassified : Classified s (normalizeIgnorePath path))
    (hnames : NamesSomething path) (hunmatched : checker.Unmatched path)
    (hreports : s.checkGitIgnoredPaths.reports (normalizeIgnorePath path) = true) :
    checker.isIgnored s.gitIgnoredPaths path false = true :=
  (isIgnored_iff hunmatched).mpr (.inr ⟨_, trim_mem_covers hnames, hclassified hreports hnames⟩)

theorem NamesSomething.ne_nil (h : NamesSomething path) : normalizeIgnorePath path ≠ [] := by
  intro hnil
  rw [NamesSomething, hnil] at h
  exact h rfl

theorem promise_of_coherent (checker : IgnoreRules) (h : Coherent s) : Promise checker s := by
  refine ⟨fun path hpath hnames hunmatched => ignored_of_classified (h.due path hpath hnames.ne_nil) hnames hunmatched,
    fun hrefreshed _ => ⟨fun path _ hunmatched hlisted => ?_, fun path hpath hnames hunmatched => ?_, fun path _ hunmatched hignored => ?_⟩⟩
  · obtain ⟨cover, hcover, hmem⟩ := hlisted
    exact (isIgnored_iff hunmatched).mpr (.inr ⟨cover, hcover, h.listed cover hmem⟩)
  · exact ignored_of_classified (h.refreshed hrefreshed path hpath hnames.ne_nil) hnames hunmatched
  · refine ((isIgnored_iff hunmatched).mp hignored).imp_right ?_
    rintro ⟨cover, hcover, hmem⟩
    exact ⟨cover, hcover, h.nothing_else cover hmem⟩

theorem coherent_resolved {paths : List Text} (h : Coherent s)
    (hpaths : ∀ path ∈ paths, normalizeIgnorePath path ≠ [] →
      normalizeIgnorePath path ∈ s.checkedGitCandidates ∧ Classified s (normalizeIgnorePath path)) :
    Coherent (s.resolved paths) where
  context := h.context
  pending := h.pending
  candidate := h.candidate
  checked := h.checked
  resolving := h.resolving
  rechecking other query hwaits path hpath hne :=
    (List.mem_append.mp hpath).elim (fun hold => h.rechecking other query hwaits path hold hne)
      fun hnew => .inr (hpaths path hnew hne).2
  resolved path hpath hne :=
    (List.mem_append.mp hpath).elim (fun hold => h.resolved path hold hne) fun hnew => (hpaths path hnew hne).1
  due path hpath hne :=
    (List.mem_append.mp hpath).elim (fun hold => h.due path hold hne) fun hnew => (hpaths path hnew hne).2
  refreshed := nofun
  listed := h.listed
  nothing_else := h.nothing_else

theorem classified_of_checked (h : Coherent s) (hchecked : path ∈ s.checkedGitCandidates)
    (hfailed : path ∉ s.record.failed)
    (hasked : ∀ call waiting query, s.calls call = some waiting → waiting.query? = some query → path ∉ query.pending) :
    Classified s path := by
  rcases h.checked path hchecked with hmem | ⟨other, waiting, query, hwaits, hquery, hpath⟩ | hclassified
  · exact absurd hmem hfailed
  · exact absurd hpath (hasked other waiting query hwaits hquery)
  · exact hclassified

variable [DecidableEq κ] {call : κ}

theorem update_eq_some {calls : κ → Option Call} {next : Option Call} {other : κ} {waiting : Call}
    (h : Function.update calls call next other = some waiting) : (other = call ∧ next = some waiting) ∨ calls other = some waiting := by
  by_cases heq : other = call
  · subst heq
    rw [Function.update_self] at h
    exact .inl ⟨rfl, h⟩
  · rw [Function.update_of_ne heq] at h
    exact .inr h

theorem asked_update {next : Option Call} (h : Asked s path)
    (hcall : ∀ waiting, s.calls call = some waiting → waiting.query? = none) :
    ∃ other waiting query, Function.update s.calls call next other = some waiting ∧ waiting.query? = some query ∧
      path ∈ query.pending := by
  obtain ⟨other, waiting, query, hwaits, hquery, hpath⟩ := h
  refine ⟨other, waiting, query, ?_, hquery, hpath⟩
  rw [Function.update_of_ne, hwaits]
  rintro rfl
  rw [hcall waiting hwaits] at hquery
  cases hquery

theorem coherent_resolve {paths : List Text} (h : Coherent s) (hidle : s.calls call = none)
    (horderly : Orderly s (.resolveGitIgnoredCandidates call paths)) : Coherent (s.resolveGitIgnoredCandidates call paths) := by
  have hmarks := marked_markCandidates s.checkedGitCandidates paths
  rw [State.resolveGitIgnoredCandidates]
  generalize markCandidates s.checkedGitCandidates paths = marks at hmarks
  obtain ⟨checked, pending⟩ := marks
  have hpath : ∀ path ∈ paths, normalizeIgnorePath path ≠ [] →
      normalizeIgnorePath path ∈ pending ∨
        normalizeIgnorePath path ∈ s.checkedGitCandidates ∧ Classified s (normalizeIgnorePath path) := by
    intro path hpath hne
    by_cases hchecked : normalizeIgnorePath path ∈ s.checkedGitCandidates
    · exact .inr ⟨hchecked, classified_of_checked h hchecked (horderly path hpath).1 (horderly path hpath).2⟩
    · exact .inl ((hmarks.pending _).mpr ⟨hne, hchecked, List.mem_map_of_mem hpath⟩)
  dsimp only
  split
  · rename_i hempty
    obtain rfl := List.length_eq_zero_iff.mp hempty
    exact coherent_resolved h fun path hmem hne => (hpath path hmem hne).resolve_left List.not_mem_nil
  · have hmono : s.checkedGitCandidates ⊆ checked := fun path hmem => (hmarks.all path).mpr (.inl hmem)
    have hpending : pending ⊆ checked := fun path hmem => (hmarks.all path).mpr (.inr hmem)
    have hnone : ∀ waiting, s.calls call = some waiting → waiting.query? = none := by
      rw [hidle]
      exact nofun
    refine ⟨?_, ?_, ?_, ?_, ?_, ?_, ?_, h.due, nofun, h.listed, ?_⟩
    · intro other waiting query hwaits hquery
      rcases update_eq_some hwaits with ⟨-, hnext⟩ | hold
      · obtain rfl := Option.some.inj hnext
        obtain rfl := Option.some.inj hquery
        rfl
      · exact h.context other waiting query hold hquery
    · intro other waiting query hwaits hquery
      rcases update_eq_some hwaits with ⟨-, hnext⟩ | hold
      · obtain rfl := Option.some.inj hnext
        obtain rfl := Option.some.inj hquery
        exact hpending
      · exact fun path hmem => hmono (h.pending other waiting query hold hquery hmem)
    · intro path hmem
      rcases (hmarks.all path).mp hmem with hold | hnew
      · exact h.candidate path hold
      · obtain ⟨hne, -, hmap⟩ := (hmarks.pending path).mp hnew
        obtain ⟨source, -, rfl⟩ := List.mem_map.mp hmap
        exact ⟨normalizeIgnorePath_idem source, hne⟩
    · intro path hmem
      rcases (hmarks.all path).mp hmem with hold | hnew
      · rcases h.checked path hold with hfailed | hasked | hclassified
        · exact .inl hfailed
        · exact .inr (.inl (asked_update hasked hnone))
        · exact .inr (.inr hclassified)
      · exact .inr (.inl ⟨call, _, _, Function.update_self .., rfl, hnew⟩)
    · intro other paths' query hwaits path hmem hne
      rcases update_eq_some hwaits with ⟨-, hnext⟩ | hold
      · obtain ⟨rfl, rfl⟩ := Call.resolving.inj (Option.some.inj hnext)
        rcases hpath path hmem hne with hnew | ⟨hchecked, hclassified⟩
        · exact ⟨hpending hnew, .inl hnew⟩
        · exact ⟨hmono hchecked, .inr hclassified⟩
      · exact (h.resolving other paths' query hold path hmem hne).imp (fun hmem => hmono hmem) id
    · intro other query hwaits
      rcases update_eq_some hwaits with ⟨-, hnext⟩ | hold
      · cases hnext
      · exact h.rechecking other query hold
    · exact fun path hmem hne => hmono (h.resolved path hmem hne)
    · intro x hx
      rcases h.nothing_else x hx with hlisted | ⟨candidate, hcandidate, hreports, rfl⟩
      · exact .inl hlisted
      · exact .inr ⟨candidate, hmono hcandidate, hreports, rfl⟩

theorem coherent_refresh (h : Coherent s) (hidle : s.calls call = none) : Coherent (s.refreshGitIgnores call) := by
  rw [State.refreshGitIgnores]
  split
  · exact ⟨h.context, h.pending, h.candidate, h.checked, h.resolving, h.rechecking, h.resolved, h.due, nofun, h.listed, h.nothing_else⟩
  · have hwaits {other : κ} {waiting : Call} {query : Query}
        (hnext : Function.update s.calls call (some .reloading) other = some waiting) (hquery : waiting.query? = some query) :
        s.calls other = some waiting := by
      rcases update_eq_some hnext with ⟨-, heq⟩ | hold
      · obtain rfl := Option.some.inj heq
        cases hquery
      · exact hold
    have hnone : ∀ waiting, s.calls call = some waiting → waiting.query? = none := by
      rw [hidle]
      exact nofun
    refine ⟨fun _ _ _ hnext hquery => h.context _ _ _ (hwaits hnext hquery) hquery,
      fun _ _ _ hnext hquery => h.pending _ _ _ (hwaits hnext hquery) hquery, h.candidate, fun path hpath => ?_,
      fun _ _ _ hnext => h.resolving _ _ _ (hwaits hnext rfl), fun _ _ hnext => h.rechecking _ _ (hwaits hnext rfl), h.resolved,
      nofun, nofun, h.listed, h.nothing_else⟩
    exact (h.checked path hpath).imp id (Or.imp_left fun hasked => asked_update hasked hnone)

theorem coherent_reloaded (context : GitIgnoreContext) (h : Coherent s) (horderly : Orderly s (.reloaded call context)) :
    Coherent (s.reloaded call context) := by
  obtain ⟨hdue, hquiet⟩ := horderly
  have hmarks := marked_markCandidates [] s.checkedGitCandidates
  rw [State.reloaded]
  generalize markCandidates [] s.checkedGitCandidates = marks at hmarks
  obtain ⟨checked, pending⟩ := marks
  have hpending : ∀ path, path ∈ pending ↔ path ∈ s.checkedGitCandidates := by
    intro path
    rw [hmarks.pending]
    constructor
    · rintro ⟨-, -, hmap⟩
      obtain ⟨source, hsource, rfl⟩ := List.mem_map.mp hmap
      rwa [(h.candidate source hsource).1]
    · intro hmem
      obtain ⟨hnormal, hne⟩ := h.candidate path hmem
      exact ⟨hne, List.not_mem_nil, List.mem_map.mpr ⟨path, hmem, hnormal⟩⟩
  have hchecked : ∀ path, path ∈ checked ↔ path ∈ pending := by
    intro path
    rw [hmarks.all]
    exact ⟨fun hmem => hmem.resolve_left List.not_mem_nil, .inr⟩
  have hresolved : ∀ path ∈ s.record.resolved, normalizeIgnorePath path ≠ [] → normalizeIgnorePath path ∈ pending :=
    fun path hmem hne => (hpending _).mpr (h.resolved path hmem hne)
  have hold {next : Option Call} {other : κ} {waiting : Call} {query : Query}
      (hwaits : Function.update s.calls call next other = some waiting) (hquery : waiting.query? = some query) :
      other = call ∧ next = some waiting := by
    rcases update_eq_some hwaits with hnext | hold
    · exact hnext
    · rw [hquiet other waiting hold] at hquery
      cases hquery
  dsimp only
  split
  · rename_i hempty
    obtain rfl := List.length_eq_zero_iff.mp hempty
    have hnone : ∀ path, path ∉ checked := fun path hmem => List.not_mem_nil ((hchecked path).mp hmem)
    refine ⟨?_, ?_, fun path hmem => absurd hmem (hnone path), fun path hmem => absurd hmem (hnone path), ?_, ?_, ?_, ?_, ?_, fun _ hx => hx,
      fun _ hx => .inl hx⟩
    · exact fun _ _ _ hwaits hquery => nomatch (hold hwaits hquery).2
    · exact fun _ _ _ hwaits hquery => nomatch (hold hwaits hquery).2
    · exact fun _ _ _ hwaits => nomatch (hold hwaits rfl).2
    · exact fun _ _ hwaits => nomatch (hold hwaits rfl).2
    · exact fun path hmem hne => absurd (hresolved path hmem hne) List.not_mem_nil
    · rw [hdue]
      exact nofun
    · exact fun _ path hmem hne => absurd (hresolved path hmem hne) List.not_mem_nil
  · rename_i hpositive
    have hcall {other : κ} {waiting : Call} {query : Query}
        (hwaits : Function.update s.calls call (some (.rechecking ⟨pending, context⟩)) other = some waiting)
        (hquery : waiting.query? = some query) : waiting = .rechecking ⟨pending, context⟩ ∧ query = ⟨pending, context⟩ := by
      obtain rfl := Option.some.inj (hold hwaits hquery).2
      exact ⟨rfl, (Option.some.inj hquery).symm⟩
    refine ⟨?_, ?_, ?_, ?_, ?_, ?_, ?_, ?_, ?_, fun _ hx => hx, fun _ hx => .inl hx⟩
    · intro other waiting query hwaits hquery
      obtain ⟨-, rfl⟩ := hcall hwaits hquery
      rfl
    · intro other waiting query hwaits hquery
      obtain ⟨-, rfl⟩ := hcall hwaits hquery
      exact fun path hmem => (hchecked path).mpr hmem
    · exact fun path hmem => h.candidate path ((hpending path).mp ((hchecked path).mp hmem))
    · exact fun path hmem => .inr (.inl ⟨call, _, _, Function.update_self .., rfl, (hchecked path).mp hmem⟩)
    · exact fun _ _ _ hwaits => nomatch (hcall hwaits rfl).1
    · intro other query hwaits path hmem hne
      obtain ⟨-, rfl⟩ := hcall hwaits rfl
      exact .inl (hresolved path hmem hne)
    · exact fun path hmem hne => (hchecked _).mpr (hresolved path hmem hne)
    · rw [hdue]
      exact nofun
    · intro hrefreshed
      exact absurd (of_decide_eq_true hrefreshed) hpositive

theorem update_none {calls : κ → Option Call} {other : κ} {waiting : Call}
    (h : Function.update calls call none other = some waiting) : other ≠ call ∧ calls other = some waiting := by
  by_cases heq : other = call
  · subst heq
    rw [Function.update_self] at h
    cases h
  · rw [Function.update_of_ne heq] at h
    exact ⟨heq, h⟩

theorem coherent_rejected {failed : List Text} (h : Coherent s)
    (hfailed : ∀ waiting query, s.calls call = some waiting → waiting.query? = some query → query.pending ⊆ failed) :
    Coherent (s.rejected call failed) := by
  have hold {other : κ} {waiting : Call} (hwaits : Function.update s.calls call none other = some waiting) :
      s.calls other = some waiting :=
    (update_none hwaits).2
  refine ⟨fun _ _ _ hwaits => h.context _ _ _ (hold hwaits), fun _ _ _ hwaits => h.pending _ _ _ (hold hwaits), h.candidate,
    fun path hpath => ?_, fun _ _ _ hwaits => h.resolving _ _ _ (hold hwaits), fun _ _ hwaits => h.rechecking _ _ (hold hwaits),
    h.resolved, h.due, nofun, h.listed, h.nothing_else⟩
  rcases h.checked path hpath with hmem | ⟨other, waiting, query, hwaits, hquery, hmem⟩ | hclassified
  · exact .inl (List.mem_append_left _ hmem)
  · by_cases heq : other = call
    · subst heq
      exact .inl (List.mem_append_right _ (hfailed waiting query hwaits hquery hmem))
    · have hkept : Function.update s.calls call none other = some waiting := by rwa [Function.update_of_ne heq]
      exact .inr (.inl ⟨other, waiting, query, hkept, hquery, hmem⟩)
  · exact .inr (.inr hclassified)

/-! ## Answers -/

section Answer

variable {waiting : Call} {query : Query} (h : Coherent s) (hwaits : s.calls call = some waiting) (hquery : waiting.query? = some query)

include h hwaits hquery

theorem mem_classify {x : Text} : x ∈ (s.classify call query).gitIgnoredPaths ↔ x ∈ s.gitIgnoredPaths ∨
    x ≠ [] ∧ ∃ path ∈ query.pending, s.checkGitIgnoredPaths.reports path = true ∧ x = trimTrailingSlashes path := by
  have hcontext := h.context call waiting query hwaits hquery
  have hpending := h.pending call waiting query hwaits hquery
  rw [State.classify, mem_foldl_addGitIgnoredPath, hcontext, GitIgnoreContext.checkPaths]
  refine or_congr_right (and_congr_right fun _ => exists_congr fun path => ?_)
  rw [List.mem_filter, and_assoc]
  refine and_congr_right fun hmem => and_congr_right fun _ => ?_
  rw [(h.candidate path (hpending hmem)).1]

theorem classified_classify (hclassified : path ∈ query.pending ∨ Classified s path) :
    Classified (s.classify call query) path := by
  intro hreports hne
  refine (mem_classify h hwaits hquery).mpr ?_
  rcases hclassified with hmem | hclassified
  · exact .inr ⟨hne, path, hmem, hreports, rfl⟩
  · exact .inl (hclassified hreports hne)

theorem coherent_classify : Coherent (s.classify call query) := by
  have hold {other : κ} {waiting' : Call} (hother : Function.update s.calls call none other = some waiting') :
      s.calls other = some waiting' :=
    (update_none hother).2
  have hkeep {path : Text} (hclassified : Classified s path) : Classified (s.classify call query) path :=
    classified_classify h hwaits hquery (.inr hclassified)
  refine ⟨fun _ _ _ hother => h.context _ _ _ (hold hother), fun _ _ _ hother => h.pending _ _ _ (hold hother), h.candidate,
    fun path hpath => ?_, fun _ _ _ hother path hpath hne => ?_, fun _ _ hother path hpath hne => ?_, h.resolved,
    fun path hpath hne => hkeep (h.due path hpath hne), fun hrefreshed path hpath hne => hkeep (h.refreshed hrefreshed path hpath hne),
    fun x hx => ?_, fun x hx => ?_⟩
  · rcases h.checked path hpath with hmem | ⟨other, waiting', query', hother, hquery', hmem⟩ | hclassified
    · exact .inl hmem
    · by_cases heq : other = call
      · subst heq
        obtain rfl := Option.some.inj (hwaits.symm.trans hother)
        obtain rfl := Option.some.inj (hquery.symm.trans hquery')
        exact .inr (.inr (classified_classify h hwaits hquery (.inl hmem)))
      · have hkept : Function.update s.calls call none other = some waiting' := by rwa [Function.update_of_ne heq]
        exact .inr (.inl ⟨other, waiting', query', hkept, hquery', hmem⟩)
    · exact .inr (.inr (hkeep hclassified))
  · exact (h.resolving _ _ _ (hold hother) path hpath hne).imp_right (Or.imp_right hkeep)
  · exact (h.rechecking _ _ (hold hother) path hpath hne).imp_right hkeep
  · exact (mem_classify h hwaits hquery).mpr (.inl (h.listed x hx))
  · rcases (mem_classify h hwaits hquery).mp hx with hmem | ⟨-, path, hmem, hreports, rfl⟩
    · exact h.nothing_else x hmem
    · exact .inr ⟨path, h.pending call waiting query hwaits hquery hmem, hreports, rfl⟩

end Answer

/-! ## Runs -/

theorem coherent_step {e : Event κ} {s' : State κ} (h : Coherent s) (hstep : Step s e s') (horderly : Orderly s e) : Coherent s' := by
  cases hstep with
  | resolve paths idle => exact coherent_resolve h idle horderly
  | refresh idle => exact coherent_refresh h idle
  | reloaded context _ => exact coherent_reloaded context h horderly
  | reloadFailed waits =>
    refine coherent_rejected h fun waiting query hwaits hquery => ?_
    obtain rfl := Option.some.inj (waits.symm.trans hwaits)
    cases hquery
  | resolved waits =>
    refine coherent_resolved (coherent_classify h waits rfl) fun path hpath hne => ?_
    exact (h.resolving _ _ _ waits path hpath hne).imp_right (classified_classify h waits rfl)
  | refreshed waits =>
    have hclassify := coherent_classify h waits rfl
    exact ⟨hclassify.context, hclassify.pending, hclassify.candidate, hclassify.checked, hclassify.resolving, hclassify.rechecking,
      hclassify.resolved, hclassify.due,
      fun _ path hpath hne => classified_classify h waits rfl (h.rechecking _ _ waits path hpath hne),
      hclassify.listed, hclassify.nothing_else⟩
  | checkFailed waits asks =>
    refine coherent_rejected h fun waiting query hwaits hquery => ?_
    obtain rfl := Option.some.inj (waits.symm.trans hwaits)
    obtain rfl := Option.some.inj (asks.symm.trans hquery)
    exact fun _ hmem => hmem

/-- In an orderly run the promises hold in every state. -/
theorem promise_of_orderly (checker : IgnoreRules) (gitContext : GitIgnoreContext) (loadGitIgnoreContext : Bool) {es : List (Event κ)}
    {s : State κ} (h : Run (fun s e s' => Step s e s' ∧ Orderly s e) (start gitContext loadGitIgnoreContext) es s) :
    Promise checker s := by
  refine promise_of_coherent checker (h.invariant Coherent (coherent_start gitContext loadGitIgnoreContext) ?_)
  exact fun s e s' hcoherent hstep => coherent_step hcoherent hstep.1 hstep.2

/-- A context that reports the text `a`. -/
def contextOfA : GitIgnoreContext := ⟨[], fun path => path = [97]⟩

/-- Two calls wait at a time, the later one is answered first, and the context is read again. -/
def overlapping : List (Event Bool) :=
  [.resolveGitIgnoredCandidates true [[97]], .resolveGitIgnoredCandidates false [[98]], .answered false, .answered true,
    .refreshGitIgnores false, .reloaded false contextOfA, .answered false]

theorem promise_of_answer : ∃ s : State Bool, Run (fun s e s' => Step s e s' ∧ Orderly s e) (start contextOfA true) overlapping s ∧
    s.record.refreshed = true ∧ s.gitIgnoredPaths = [[97]] ∧ Promise ⟨[], fun _ => false, fun _ => false⟩ s := by
  have hboth : Run (fun s e s' => Step s e s' ∧ Orderly s e) (start contextOfA true : State Bool)
      [.resolveGitIgnoredCandidates true [[97]], .resolveGitIgnoredCandidates false [[98]]] _ :=
    .snoc (.snoc .nil ⟨.resolve [[97]] rfl, fun path _ => ⟨List.not_mem_nil, nofun⟩⟩)
      ⟨.resolve [[98]] rfl, fun path hpath => ⟨List.not_mem_nil, fun call waiting query hwaits hquery => by
        obtain rfl := List.mem_singleton.mp hpath
        cases call <;> cases hwaits
        cases hquery
        decide⟩⟩
  have hrun : Run (fun s e s' => Step s e s' ∧ Orderly s e) (start contextOfA true) overlapping _ :=
    .snoc (.snoc (.snoc (.snoc (.snoc hboth ⟨.resolved rfl, trivial⟩) ⟨.resolved rfl, trivial⟩) ⟨.refresh rfl, trivial⟩)
      ⟨.reloaded contextOfA rfl, rfl, fun call waiting hwaits => by
        cases call <;> cases hwaits
        rfl⟩) ⟨.refreshed rfl, trivial⟩
  exact ⟨_, hrun, rfl, by decide, promise_of_orderly _ contextOfA true hrun⟩

/-- A question fails, and the path is taken for classified by the next call. -/
theorem failed_question_forgotten : ¬ ∀ (checker : IgnoreRules) (gitContext : GitIgnoreContext) (es : List (Event Bool)) (s : State Bool),
    Run Step (start gitContext true) es s → Promise checker s := by
  intro h
  have hrun : Run Step (start contextOfA true : State Bool)
      [.resolveGitIgnoredCandidates true [[97]], .checkFailed true, .resolveGitIgnoredCandidates false [[97]]] _ :=
    .snoc (.snoc (.snoc .nil (.resolve [[97]] rfl)) (.checkFailed rfl rfl)) (.resolve [[97]] rfl)
  have hignored := (h ⟨[], fun _ => false, fun _ => false⟩ contextOfA _ _ hrun).1 [97] (by decide) (by unfold NamesSomething; decide) nofun (by decide)
  exact absurd hignored (by decide)

end Veryfront.Sync
