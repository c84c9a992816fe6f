import Veryfront.Sync.GitIgnoreAnswers

/-!
# Every candidate is asked of one repository

The repositories below a project directory are tried longest path first, and each asks those nested in it. What is reported
comes from the innermost repository of a path.
-/

namespace Veryfront.Sync.GitIgnore

open Lib

/-! ## The longest path first -/

def sortPaths (paths : List Text) : List Text := paths.mergeSort fun left right => right.length ≤ left.length

theorem map_sortRepositories (repositories : List NestedRepositoryContext) :
    (sortRepositories repositories).map (·.path) = sortPaths (repositories.map (·.path)) :=
  List.map_mergeSort fun _ _ _ _ => rfl

theorem sortPaths_pairwise (paths : List Text) : (sortPaths paths).Pairwise fun left right => right.length ≤ left.length := by
  have hsorted := @List.pairwise_mergeSort Text (fun left right => right.length ≤ left.length)
    (fun a b c hab hbc => decide_eq_true ((of_decide_eq_true hbc).trans (of_decide_eq_true hab)))
    (fun a b => by simpa using Nat.le_total b.length a.length) paths
  exact hsorted.imp of_decide_eq_true

variable {paths : List Text}

theorem mem_sortPaths {path : Text} : path ∈ sortPaths paths ↔ path ∈ paths := List.mem_mergeSort

variable {directories : List Text} {path : Text}

variable {directory : Text}

theorem eq_of_beneath {directory' : Text} (h : Beneath directory path) (h' : Beneath directory' path)
    (hlength : directory.length = directory'.length) : directory = directory' := by
  have hbegin := List.prefix_of_prefix_length_le h h' (by simp [hlength])
  exact List.append_cancel_right (hbegin.eq_of_length (by simp [hlength]))

def Longest (directories : List Text) (path directory : Text) : Prop :=
  directory ∈ directories ∧ Beneath directory path ∧ ∀ other ∈ directories, Beneath other path → other.length ≤ directory.length

theorem place_eq_none_iff : place (sortPaths directories) path = none ↔ ∀ directory ∈ directories, ¬Beneath directory path := by
  simp [place, List.findIdx?_eq_none_iff, mem_sortPaths]

theorem longest_of_place {k : Nat} (h : place (sortPaths directories) path = some k) :
    ∃ directory, (sortPaths directories)[k]? = some directory ∧ Longest directories path directory := by
  obtain ⟨hk, hbelow, hbefore⟩ := List.findIdx?_eq_some_iff_getElem.mp h
  refine ⟨(sortPaths directories)[k], List.getElem?_eq_getElem hk, mem_sortPaths.mp (List.getElem_mem hk),
    of_decide_eq_true hbelow, fun other hother hbeneath => ?_⟩
  obtain ⟨j, hj, rfl⟩ := List.mem_iff_getElem.mp (mem_sortPaths.mpr hother)
  rcases lt_trichotomy j k with hlt | rfl | hlt
  · exact absurd (decide_eq_true hbeneath) (hbefore j hlt)
  · exact le_rfl
  · exact List.pairwise_iff_getElem.mp (sortPaths_pairwise directories) k j hk hj hlt

theorem place_of_longest (h : Longest directories path directory) :
    ∃ k, place (sortPaths directories) path = some k ∧ (sortPaths directories)[k]? = some directory := by
  cases hplace : place (sortPaths directories) path with
  | none => exact absurd h.2.1 (place_eq_none_iff.mp hplace directory h.1)
  | some k =>
    obtain ⟨first, hfirst, hlongest⟩ := longest_of_place hplace
    have hsame := eq_of_beneath hlongest.2.1 h.2.1
      (le_antisymm (h.2.2 first hlongest.1 hlongest.2.1) (hlongest.2.2 directory h.1 h.2.1))
    exact ⟨k, rfl, hsame ▸ hfirst⟩

theorem belowPlace_eq {k : Nat} {rest : Text} (h : (sortPaths directories)[k]? = some directory) :
    belowPlace (sortPaths directories) k (directory ++ [slash] ++ rest) = rest := by
  rw [belowPlace, List.getD_eq_getElem?_getD, h, Option.getD_some]
  exact List.drop_left' (by simp)

/-! ## Repositories -/

inductive Innermost : Repository → Text → (name : Text) → CheckIgnoreScope → Prop
  | own {scope : CheckIgnoreScope} {isBeneathSymlink : Text → Bool} {directories : List Text} {distinct : directories.Nodup}
    {repositories : Fin directories.length → Repository} {path : Text} (ne : path ≠ []) (direct : isBeneathSymlink path = false)
    (outside : ∀ directory ∈ directories, ¬Beneath directory path) :
    Innermost (.checked scope isBeneathSymlink directories distinct repositories) path [] scope
  | nested {scope inner : CheckIgnoreScope} {isBeneathSymlink : Text → Bool} {directories : List Text}
    {distinct : directories.Nodup} {repositories : Fin directories.length → Repository} {rest name : Text}
    (i : Fin directories.length) (direct : isBeneathSymlink (directories[i] ++ [slash] ++ rest) = false)
    (longest : Longest directories (directories[i] ++ [slash] ++ rest) directories[i])
    (h : Innermost (repositories i) rest name inner) :
    Innermost (.checked scope isBeneathSymlink directories distinct repositories) (directories[i] ++ [slash] ++ rest)
      (directories[i] ++ [slash] ++ name) inner

inductive Asked : Repository → List Text → (name : Text) → CheckIgnoreScope → List Text → Prop
  | own {scope : CheckIgnoreScope} {isBeneathSymlink : Text → Bool} {directories : List Text} {distinct : directories.Nodup}
    {repositories : Fin directories.length → Repository} {paths : List Text} :
    Asked (.checked scope isBeneathSymlink directories distinct repositories) paths [] scope
      (groupCandidates (sortPaths directories) isBeneathSymlink paths).own
  | nested {scope inner : CheckIgnoreScope} {isBeneathSymlink : Text → Bool} {directories : List Text}
    {distinct : directories.Nodup} {repositories : Fin directories.length → Repository} {paths grouped candidates : List Text}
    {name : Text} {k : Nat} (i : Fin directories.length)
    (mem : (k, grouped) ∈ (groupCandidates (sortPaths directories) isBeneathSymlink paths).nested.entries)
    (there : (sortPaths directories)[k]? = some directories[i]) (h : Asked (repositories i) grouped name inner candidates) :
    Asked (.checked scope isBeneathSymlink directories distinct repositories) paths (directories[i] ++ [slash] ++ name) inner
      candidates

variable {repository : Repository} {scope : CheckIgnoreScope}

variable {name : Text}

theorem innermost_unique {path name' : Text} {scope' : CheckIgnoreScope}
    (h : Innermost repository path name scope) (h' : Innermost repository path name' scope') : name = name' ∧ scope = scope' := by
  induction h generalizing name' scope' with
  | own ne direct outside =>
    generalize hrepository : Repository.checked .. = repository' at h'
    cases h' with
    | own =>
      cases hrepository
      exact ⟨rfl, rfl⟩
    | nested i direct' longest h' =>
      cases hrepository
      exact absurd longest.2.1 (outside _ longest.1)
  | @nested scope inner isBeneathSymlink directories distinct repositories rest name i direct longest h ih =>
    generalize hpath : directories[i] ++ [slash] ++ rest = path at h'
    generalize hrepository : Repository.checked scope isBeneathSymlink directories distinct repositories = repository' at h'
    cases h' with
    | own ne direct' outside =>
      cases hrepository
      exact absurd (hpath ▸ longest.2.1) (outside _ longest.1)
    | @nested _ _ _ _ _ _ rest' name' j direct' longest' h' =>
      cases hrepository
      rw [← hpath] at longest'
      have hsame : directories[i] = directories[j] := eq_of_beneath longest.2.1 longest'.2.1
        (le_antisymm (longest'.2.2 _ longest.1 longest.2.1) (longest.2.2 _ longest'.1 longest'.2.1))
      have hij : i = j := Fin.ext ((distinct.getElem_inj_iff).mp hsame)
      subst hij
      obtain rfl := List.append_cancel_left hpath
      obtain ⟨rfl, rfl⟩ := ih h'
      exact ⟨rfl, rfl⟩

variable {isBeneathSymlink : Text → Bool} {distinct : directories.Nodup}
  {repositories : Fin directories.length → Repository}

theorem asks_of_innermost {inner : CheckIgnoreScope}
    (h : Innermost (.checked scope isBeneathSymlink directories distinct repositories) path name inner) (hmem : path ∈ paths) :
    Asks isBeneathSymlink paths path := by
  cases h with
  | own ne direct outside => exact ⟨hmem, ne, direct⟩
  | nested i direct longest h => exact ⟨hmem, by simp, direct⟩

theorem asked_iff {below : Text} :
    (∃ candidates, Asked repository paths name scope candidates ∧ below ∈ candidates) ↔
      name ++ below ∈ paths ∧ Innermost repository (name ++ below) name scope := by
  constructor
  · rintro ⟨candidates, h, hbelow⟩
    induction h with
    | own =>
      obtain ⟨⟨hpath, hne, hdirect⟩, hplace⟩ := mem_own.mp hbelow
      exact ⟨hpath, .own hne hdirect (place_eq_none_iff.mp hplace)⟩
    | @nested scope inner isBeneathSymlink directories distinct repositories paths grouped candidates name k i mem there h ih =>
      obtain ⟨hgrouped, hinner⟩ := ih hbelow
      obtain ⟨path, hasks, hplace, hpath⟩ := (mem_group mem).mp hgrouped
      obtain ⟨directory, hdirectory, hlongest⟩ := longest_of_place hplace
      obtain rfl : directories[i] = directory := Option.some.inj (there.symm.trans hdirectory)
      obtain ⟨rest, rfl⟩ := hlongest.2.1
      rw [belowPlace_eq there] at hpath
      subst hpath
      rw [List.append_assoc]
      exact ⟨hasks.1, .nested i hasks.2.2 hlongest hinner⟩
  · rintro ⟨hmem, h⟩
    generalize hpath : name ++ below = path at hmem h
    induction h generalizing paths with
    | own ne direct outside =>
      rw [List.nil_append] at hpath
      subst hpath
      exact ⟨_, .own, mem_own.mpr ⟨⟨hmem, ne, direct⟩, place_eq_none_iff.mpr outside⟩⟩
    | @nested scope inner isBeneathSymlink directories distinct repositories rest name i direct longest h ih =>
      rw [List.append_assoc] at hpath
      obtain rfl := List.append_cancel_left hpath
      have hasks : Asks isBeneathSymlink paths (directories[i] ++ [slash] ++ (name ++ below)) := ⟨hmem, by simp, direct⟩
      obtain ⟨k, hplace, hthere⟩ := place_of_longest longest
      obtain ⟨grouped, hgroup⟩ := exists_group hasks hplace
      have hbelow : name ++ below ∈ grouped := (mem_group hgroup).mpr ⟨_, hasks, hplace, (belowPlace_eq hthere).symm⟩
      obtain ⟨candidates, hasked, hcandidate⟩ := ih rfl hbelow
      exact ⟨candidates, .nested i hgroup hthere hasked, hcandidate⟩

theorem asked_nodup {candidates : List Text}
    (h : Asked repository paths name scope candidates) : candidates.Nodup := by
  induction h with
  | own => exact own_nodup
  | nested _ _ _ _ ih => exact ih

/-! ## Reports -/

theorem checkNested_found {nestedRepositories : List NestedRepositoryContext} {groups : List (Nat × List Text)}
    {R : Nat → Text → Prop} (hkeys : (groups.map Prod.fst).Nodup)
    (h : ∀ k grouped, (k, grouped) ∈ groups → ∃ repository found, nestedRepositories[k]? = some repository ∧
      repository.checkPaths grouped = .ok found ∧ found.Nodup ∧
        ∀ path, path ∈ found.map (repository.path ++ [slash] ++ ·) ↔ R k path)
    (hplace : ∀ k k' path, R k path → R k' path → k = k') (ignored : List Text) :
    ∃ found, checkNested nestedRepositories ignored groups = .ok (ignored ++ found) ∧ found.Nodup ∧
      ∀ path, path ∈ found ↔ ∃ k grouped, (k, grouped) ∈ groups ∧ R k path := by
  induction groups generalizing ignored with
  | nil => exact ⟨[], by rw [checkNested, List.append_nil], List.nodup_nil, by simp⟩
  | cons group groups ih =>
    obtain ⟨k, grouped⟩ := group
    rw [List.map_cons, List.nodup_cons] at hkeys
    obtain ⟨repository, first, hthere, hcheck, hfirst, hmem⟩ := h k grouped List.mem_cons_self
    obtain ⟨found, hrest, hfound, hmem'⟩ := ih hkeys.2 (fun k grouped hgroup => h k grouped (List.mem_cons_of_mem _ hgroup))
      (ignored ++ first.map (repository.path ++ [slash] ++ ·))
    refine ⟨first.map (repository.path ++ [slash] ++ ·) ++ found, ?_, ?_, fun path => ?_⟩
    · rw [checkNested]
      simp only [hthere, hcheck]
      rw [← List.append_assoc]
      exact hrest
    · refine (hfirst.map (List.append_right_injective _)).append hfound fun path hpath hpath' => ?_
      obtain ⟨k', grouped', hgroup, hR⟩ := (hmem' path).mp hpath'
      obtain rfl := hplace k k' path ((hmem path).mp hpath) hR
      exact hkeys.1 (List.mem_map.mpr ⟨_, hgroup, rfl⟩)
    · rw [List.mem_append, hmem, hmem']
      simp only [List.mem_cons, Prod.mk.injEq]
      constructor
      · rintro (hR | ⟨k', grouped', hgroup, hR⟩)
        · exact ⟨k, grouped, .inl ⟨rfl, rfl⟩, hR⟩
        · exact ⟨k', grouped', .inr hgroup, hR⟩
      · rintro ⟨k', grouped', ⟨rfl, rfl⟩ | hgroup, hR⟩
        · exact .inl hR
        · exact .inr ⟨k', grouped', hgroup, hR⟩

def ReportedBy (reports : CheckIgnoreScope → Text → Prop) (repository : Repository) (path : Text) : Prop :=
  ∃ name scope below, path = name ++ below ∧ Innermost repository path name scope ∧ reports scope below

variable {reports : CheckIgnoreScope → Text → Prop}

theorem reportedBy_nested {rest : Text} {i : Fin directories.length}
    (direct : isBeneathSymlink (directories[i] ++ [slash] ++ rest) = false)
    (longest : Longest directories (directories[i] ++ [slash] ++ rest) directories[i]) :
    ReportedBy reports (.checked scope isBeneathSymlink directories distinct repositories) (directories[i] ++ [slash] ++ rest) ↔
      ReportedBy reports (repositories i) rest := by
  constructor
  · rintro ⟨name, inner, below, hpath, h, hreports⟩
    generalize hwhole : directories[i] ++ [slash] ++ rest = whole at h hpath
    cases h with
    | own ne direct' outside => exact absurd (hwhole ▸ longest.2.1) (outside _ longest.1)
    | @nested _ _ _ _ _ _ rest' name j direct' longest' h =>
      rw [← hwhole] at longest'
      have hsame : directories[i] = directories[j] := eq_of_beneath longest.2.1 longest'.2.1
        (le_antisymm (longest'.2.2 _ longest.1 longest.2.1) (longest.2.2 _ longest'.1 longest'.2.1))
      have hij : i = j := Fin.ext ((distinct.getElem_inj_iff).mp hsame)
      subst hij
      obtain rfl := List.append_cancel_left hwhole
      rw [List.append_assoc _ name] at hpath
      exact ⟨name, inner, below, List.append_cancel_left hpath, h, hreports⟩
  · rintro ⟨name, inner, below, rfl, h, hreports⟩
    exact ⟨_, inner, below, (List.append_assoc ..).symm, .nested i direct longest h, hreports⟩

theorem reportedBy_own (ne : path ≠ [])
    (direct : isBeneathSymlink path = false) (outside : ∀ directory ∈ directories, ¬Beneath directory path) :
    ReportedBy reports (.checked scope isBeneathSymlink directories distinct repositories) path ↔ reports scope path := by
  constructor
  · rintro ⟨name, inner, below, rfl, h, hreports⟩
    generalize hwhole : name ++ below = whole at h
    cases h with
    | own =>
      rw [List.nil_append] at hwhole
      exact hwhole ▸ hreports
    | nested i _ longest _ => exact absurd longest.2.1 (hwhole ▸ outside _ longest.1)
  · exact fun hreports => ⟨[], scope, path, rfl, .own ne direct outside, hreports⟩

theorem path_of_place {k : Nat} (hplace : place (sortPaths directories) path = some k)
    (hthere : (sortPaths directories)[k]? = some directory) :
    Longest directories path directory ∧ ∃ rest, path = directory ++ [slash] ++ rest := by
  obtain ⟨other, hother, hlongest⟩ := longest_of_place hplace
  obtain rfl : directory = other := Option.some.inj (hthere.symm.trans hother)
  exact ⟨hlongest, hlongest.2.1.imp fun _ => Eq.symm⟩

theorem mem_nested_found {grouped found : List Text} {k : Nat}
    {i : Fin directories.length} (mem : (k, grouped) ∈ (groupCandidates (sortPaths directories) isBeneathSymlink paths).nested.entries)
    (there : (sortPaths directories)[k]? = some directories[i])
    (h : ∀ path, path ∈ found ↔ path ∈ grouped ∧ ReportedBy reports (repositories i) path) :
    path ∈ found.map (directories[i] ++ [slash] ++ ·) ↔
      Asks isBeneathSymlink paths path ∧ place (sortPaths directories) path = some k ∧
        ReportedBy reports (.checked scope isBeneathSymlink directories distinct repositories) path := by
  constructor
  · rintro hpath
    obtain ⟨rest, hrest, rfl⟩ := List.mem_map.mp hpath
    obtain ⟨hgroup, hreported⟩ := (h rest).mp hrest
    obtain ⟨other, hasks, hplace, hsame⟩ := (mem_group mem).mp hgroup
    obtain ⟨hlongest, rest', rfl⟩ := path_of_place hplace there
    rw [belowPlace_eq there] at hsame
    subst hsame
    exact ⟨hasks, hplace, (reportedBy_nested hasks.2.2 hlongest).mpr hreported⟩
  · rintro ⟨hasks, hplace, hreported⟩
    obtain ⟨hlongest, rest, rfl⟩ := path_of_place hplace there
    have hgroup : rest ∈ grouped := (mem_group mem).mpr ⟨_, hasks, hplace, (belowPlace_eq there).symm⟩
    exact List.mem_map_of_mem ((h rest).mpr ⟨hgroup, (reportedBy_nested hasks.2.2 hlongest).mp hreported⟩)

theorem checkPaths_found (repository : Repository) (paths : List Text)
    (h : ∀ name scope candidates, Asked repository paths name scope candidates →
      ∃ found, checkOwnPaths scope candidates = .ok found ∧ found.Nodup ∧
        ∀ path, path ∈ found ↔ path ∈ candidates ∧ reports scope path) :
    ∃ ignored, repository.checkPaths paths = .ok ignored ∧ ignored.Nodup ∧
      ∀ path, path ∈ ignored ↔ path ∈ paths ∧ ReportedBy reports repository path := by
  induction repository generalizing paths with
  | disabled =>
    refine ⟨[], rfl, List.nodup_nil, fun path => ⟨nofun, ?_⟩⟩
    rintro ⟨-, _, _, _, -, h, -⟩
    cases h
  | checked scope isBeneathSymlink directories distinct repositories ih =>
    set contexts := sortRepositories (List.ofFn fun i => ⟨directories.get i, (repositories i).checkPaths⟩) with hcontexts
    have hpaths : contexts.map (·.path) = sortPaths directories := by
      rw [hcontexts, map_sortRepositories, List.map_ofFn]
      exact congrArg sortPaths List.ofFn_getElem
    set candidates := groupCandidates (sortPaths directories) isBeneathSymlink paths with hcandidates
    obtain ⟨own, hown, hnodup, hmem⟩ := h [] scope candidates.own .own
    obtain ⟨found, hcheck, hfound, hmem'⟩ := @checkNested_found contexts candidates.nested.entries
      (fun k path => Asks isBeneathSymlink paths path ∧ place (sortPaths directories) path = some k ∧
        ReportedBy reports (.checked scope isBeneathSymlink directories distinct repositories) path)
      candidates.nested.nodup (by
        intro k grouped hgroup
        obtain ⟨inside, hinside⟩ := exists_of_group hgroup
        obtain ⟨directory, hthere, -⟩ := longest_of_place hinside
        rw [← hpaths, List.getElem?_map, Option.map_eq_some_iff] at hthere
        obtain ⟨context, hcontext, rfl⟩ := hthere
        obtain ⟨i, rfl⟩ := List.mem_ofFn.mp (List.mem_mergeSort.mp (List.mem_of_getElem? hcontext))
        have hthere : (sortPaths directories)[k]? = some directories[i] := by rw [← hpaths, List.getElem?_map, hcontext]; rfl
        obtain ⟨found, hcheck, hfound, hmem⟩ := ih i grouped fun name inner candidates hasked =>
          h _ inner candidates (.nested i hgroup hthere hasked)
        exact ⟨_, found, hcontext, hcheck, hfound, fun path => mem_nested_found hgroup hthere hmem⟩)
      (fun k k' path hk hk' => Option.some.inj (hk.2.1.symm.trans hk'.2.1)) []
    refine ⟨found ++ own, ?_, ?_, fun path => ?_⟩
    · rw [Repository.checkPaths, createPathChecker]
      simp only [← hcontexts, hpaths, ← hcandidates, hcheck, hown]
      rfl
    · refine hfound.append hnodup fun path hpath hpath' => ?_
      obtain ⟨k, group, -, -, hplace, -⟩ := (hmem' path).mp hpath
      have hnone := (mem_own.mp ((hmem path).mp hpath').1).2
      rw [hplace] at hnone
      cases hnone
    · rw [List.mem_append, hmem', hmem]
      constructor
      · rintro (⟨k, grouped, -, hasks, -, hreported⟩ | ⟨hpath, hreports⟩)
        · exact ⟨hasks.1, hreported⟩
        · obtain ⟨hasks, hplace⟩ := mem_own.mp hpath
          exact ⟨hasks.1, (reportedBy_own hasks.2.1 hasks.2.2 (place_eq_none_iff.mp hplace)).mpr hreports⟩
      · rintro ⟨hpath, hreported⟩
        have hasks : Asks isBeneathSymlink paths path := by
          obtain ⟨_, _, _, -, hinner, -⟩ := hreported
          exact asks_of_innermost hinner hpath
        cases hplace : place (sortPaths directories) path with
        | none =>
          exact .inr ⟨mem_own.mpr ⟨hasks, hplace⟩,
            (reportedBy_own hasks.2.1 hasks.2.2 (place_eq_none_iff.mp hplace)).mp hreported⟩
        | some k =>
          obtain ⟨grouped, hgroup⟩ := exists_group hasks hplace
          exact .inl ⟨k, grouped, hgroup, hasks, rfl, hreported⟩

/-! ## Exact answers -/

theorem IsText.append {t more : Text} (h : IsText t) (h' : IsText more) : IsText (t ++ more) :=
  ⟨h.wellFormed.append h'.wellFormed, fun unit hunit => (List.mem_append.mp hunit).elim (h.units unit) (h'.units unit)⟩

theorem isText_argumentPrefix {relativeProjectDir : Text} (h : IsText relativeProjectDir) :
    IsText (argumentPrefix relativeProjectDir) := by
  have hascii : ∀ t ∈ ([[46, slash], [slash]] : List Text), IsText t := by
    refine List.forall_mem_cons.mpr ⟨⟨?_, by decide⟩, List.forall_mem_singleton.mpr ⟨?_, by decide⟩⟩ <;>
      unfold WellFormed <;> decide
  rw [argumentPrefix]
  split
  · exact hascii _ (by simp)
  · exact ((hascii _ (by simp)).append h).append (hascii _ (by simp))

theorem IsText.below {rest : Text} (h : IsText (directory ++ [slash] ++ rest)) : IsText rest := by
  refine ⟨fun point hpoint => h.wellFormed point ?_, fun unit hunit => h.units unit (List.mem_append_right _ hunit)⟩
  rw [List.append_assoc, List.singleton_append, codePoints_append_cons (by decide)]
  exact List.mem_append_right _ (List.mem_cons_of_mem _ hpoint)

theorem isText_of_innermost {below : Text}
    (h : Innermost repository path name scope) (hpath : path = name ++ below) (htext : IsText path) : IsText below := by
  induction h with
  | own => rwa [hpath, List.nil_append] at htext
  | nested i direct longest h ih =>
    rw [List.append_assoc _ _ below] at hpath
    exact ih (List.append_cancel_left hpath) htext.below

structure Understood (rules : Rules) (scope : CheckIgnoreScope) (candidates : List Text) : Prop where
  apply : rules.Apply scope
  directory : IsText scope.relativeProjectDir
  readable : ∀ path ∈ candidates, rules.Readable (scope.argumentPrefix ++ path)

def Reports (rules : CheckIgnoreScope → Rules) (scope : CheckIgnoreScope) (path : Text) : Prop :=
  (rules scope).Reports (scope.argumentPrefix ++ path)

/-- Candidates are asked of their innermost repository, once, and exactly those that its rules match are reported, but for
those below a submodule that Git refuses. -/
theorem answers_exact (rules : CheckIgnoreScope → Rules) :
    (∀ scope candidates, candidates.Nodup → (∀ path ∈ candidates, IsText path) → Understood (rules scope) scope candidates →
      ∃ ignored, checkOwnPaths scope candidates = .ok ignored ∧ ignored.Nodup ∧
        ∀ path, path ∈ ignored ↔ path ∈ candidates ∧ Reports rules scope path) ∧
    ∀ repository paths, (∀ path ∈ paths, IsText path) →
      (∀ name scope candidates, Asked repository paths name scope candidates → Understood (rules scope) scope candidates) →
      (∀ name scope candidates, Asked repository paths name scope candidates → candidates.Nodup) ∧
      (∀ name scope below, (∃ candidates, Asked repository paths name scope candidates ∧ below ∈ candidates) ↔
        name ++ below ∈ paths ∧ Innermost repository (name ++ below) name scope) ∧
      (∀ path name name' scope scope', Innermost repository path name scope → Innermost repository path name' scope' →
        name = name' ∧ scope = scope') ∧
      ∃ ignored, repository.checkPaths paths = .ok ignored ∧ ignored.Nodup ∧
        ∀ path, path ∈ ignored ↔ path ∈ paths ∧ ReportedBy (Reports rules) repository path := by
  have hown : ∀ scope candidates, candidates.Nodup → (∀ path ∈ candidates, IsText path) →
      Understood (rules scope) scope candidates → ∃ ignored, checkOwnPaths scope candidates = .ok ignored ∧ ignored.Nodup ∧
        ∀ path, path ∈ ignored ↔ path ∈ candidates ∧ Reports rules scope path := by
    intro scope candidates hnodup htext hunderstood
    refine checkOwnPaths_found hunderstood.apply hnodup fun path hpath => ⟨?_, hunderstood.readable path hpath⟩
    exact (isText_argumentPrefix hunderstood.directory).append (htext path hpath)
  refine ⟨hown, fun repository paths htext hunderstood => ⟨fun _ _ _ => asked_nodup, fun _ _ _ => asked_iff,
    fun _ _ _ _ _ => innermost_unique, checkPaths_found repository paths fun name scope candidates hasked => ?_⟩⟩
  refine hown scope candidates (asked_nodup hasked) (fun below hbelow => ?_) (hunderstood name scope candidates hasked)
  obtain ⟨hmem, hinner⟩ := asked_iff.mp ⟨candidates, hasked, hbelow⟩
  exact isText_of_innermost hinner rfl (htext _ hmem)

/-! ## A rule for one file -/

/-- The rules of a repository that match one file. Its submodule `sub` is not checked out. -/
def fileRules (file : Text) : Rules where
  location := []
  submodules := [.of "sub"]
  matched argument := decide (argument = [46, slash] ++ file)

def fileGit (file line : Text) : GitIgnoreDependencies where
  runCommand _ args :=
    if args = showPrefixCommand then some ⟨true, 0, [lf], [], false⟩
    else
      let arguments := args.drop checkIgnoreCommand.length
      match arguments.find? fun argument => (Text.of "./sub/").isPrefixOf argument with
      | some argument => some ⟨false, 128, [], refusal argument (.of "sub"), false⟩
      | none =>
        if arguments.filter (fileRules file).matched = [] then some ⟨false, 1, [], [], false⟩
        else some ⟨true, 0, printLines ((arguments.filter (fileRules file).matched).map fun _ => line), [], false⟩
  hasGitMetadata _ := true

def fileScope (file line : Text) : CheckIgnoreScope := ⟨[], [46], fileGit file line⟩

theorem fileRules_below {file argument : Text} :
    (fileRules file).Refused argument ↔ (Text.of "./sub/").isPrefixOf argument = true := by
  have hname : Text.of "./sub/" = [46, slash] ++ (Text.of "sub" ++ [slash]) := by decide
  rw [List.isPrefixOf_iff_prefix, hname]
  constructor
  · rintro ⟨submodule, hmem, path, rfl, hbelow⟩
    obtain rfl := List.mem_singleton.mp hmem
    exact (List.prefix_append_right_inj _).mpr hbelow
  · rintro ⟨rest, rfl⟩
    exact ⟨_, List.mem_singleton_self _, Text.of "sub" ++ [slash] ++ rest, by simp, List.prefix_append _ _⟩

theorem fileRules_apply {file line : Text} (h : Printed ([46, slash] ++ file) line) : (fileRules file).Apply (fileScope file line) := by
  refine ⟨by simp [fileScope, fileGit, fileRules], fun arguments hne => ?_⟩
  have hcommand : checkIgnoreCommand ++ arguments ≠ showPrefixCommand := by
    intro hsame
    exact absurd (List.cons.inj hsame).1 (by decide)
  have hrun : (fileScope file line).dependencies.runCommand (fileScope file line).baseDir (checkIgnoreCommand ++ arguments) =
      match arguments.find? fun argument => (Text.of "./sub/").isPrefixOf argument with
      | some argument => some ⟨false, 128, [], refusal argument (.of "sub"), false⟩
      | none =>
        if arguments.filter (fileRules file).matched = [] then some ⟨false, 1, [], [], false⟩
        else some ⟨true, 0, printLines ((arguments.filter (fileRules file).matched).map fun _ => line), [], false⟩ := by
    dsimp only [fileScope, fileGit]
    rw [if_neg hcommand, List.drop_left]
  rw [hrun]
  cases hfind : arguments.find? fun argument => (Text.of "./sub/").isPrefixOf argument with
  | some argument =>
    obtain ⟨submodule, hmem, hbelow⟩ := fileRules_below.mpr (List.find?_some hfind)
    obtain rfl := List.mem_singleton.mp hmem
    exact .refused (List.mem_of_find?_eq_some hfind) hmem hbelow
  | none =>
    have hclean : ∀ argument ∈ arguments, ¬(fileRules file).Refused argument := by
      intro argument hargument hrefused
      exact List.find?_eq_none.mp hfind argument hargument (fileRules_below.mp hrefused)
    by_cases hempty : arguments.filter (fileRules file).matched = []
    · simp only [if_pos hempty]
      exact .unmatched hclean fun argument hargument =>
        Bool.eq_false_iff.mpr fun hmatched => List.ne_nil_of_mem (List.mem_filter.mpr ⟨hargument, hmatched⟩) hempty
    · simp only [if_neg hempty]
      refine .matched hclean (.refl _) hempty ?_
      rw [List.forall₂_map_right_iff, List.forall₂_same]
      intro argument hargument
      obtain rfl : argument = [46, slash] ++ file := of_decide_eq_true (List.mem_filter.mp hargument).2
      exact h

theorem fileRules_readable {file argument : Text} (hne : argument ≠ [])
    (h : (Text.of "./sub/").isPrefixOf argument = false ∨ ∀ c ∈ argument, isLineTerminator c = false) :
    (fileRules file).Readable argument := by
  rcases h with hclean | hline
  · intro submodule hmem hbelow
    rw [fileRules_below.mp ⟨submodule, hmem, hbelow⟩] at hclean
    cases hclean
  · refine readable_of_line hne hline fun submodule hmem => ?_
    obtain rfl := List.mem_singleton.mp hmem
    decide

/-- The text `a`, a line feed, `b`, and how Git prints it. -/
def twoLines : Text := [97, 10, 98]

def twoLinesQuoted : Text := [34, 46, 47, 97, 92, 110, 98, 34]

theorem twoLines_printed : Printed ([46, slash] ++ twoLines) twoLinesQuoted := by
  have hpieces : ∀ piece ∈ [Piece.character 46, .character 47, .character 97, .escape 110 10, .character 98], piece.Valid := by
    simp only [List.forall_mem_cons]
    exact ⟨⟨⟨by decide, by decide⟩, rfl⟩, ⟨⟨by decide, by decide⟩, rfl⟩, ⟨⟨by decide, by decide⟩, rfl⟩,
      (by decide : (110, 10) ∈ cStyleEscapes), ⟨⟨by decide, by decide⟩, rfl⟩, nofun⟩
  exact .quoted hpieces rfl

/-- A repository in which another one is nested, in the directory `n`. Both have the file. -/
def nestingRepository : Repository :=
  .checked (fileScope twoLines twoLinesQuoted) (fun _ => false) [[110]] (List.nodup_singleton _) fun _ =>
    .checked (fileScope twoLines twoLinesQuoted) (fun _ => false) [] List.nodup_nil nofun

def nestingPaths : List Text := [twoLines, [110, slash] ++ twoLines, .of "sub/x"]

theorem nesting_understood {candidates : List Text}
    (h : Asked nestingRepository nestingPaths name scope candidates) : Understood (fileRules twoLines) scope candidates := by
  have hbelow : ∀ below ∈ candidates, name ++ below ∈ nestingPaths := fun below hbelow => (asked_iff.mp ⟨candidates, h, hbelow⟩).1
  have hwhere : scope = fileScope twoLines twoLinesQuoted ∧ (name = [] ∨ name = [110, slash]) := by
    cases h with
    | own => exact ⟨rfl, .inl rfl⟩
    | nested i _ _ h =>
      cases h with
      | own =>
        obtain rfl := Fin.fin_one_eq_zero i
        exact ⟨rfl, .inr rfl⟩
      | nested i => exact i.elim0
  obtain ⟨rfl, hname⟩ := hwhere
  refine ⟨fileRules_apply twoLines_printed, ⟨by unfold WellFormed; decide, by decide⟩, fun below hmem => ?_⟩
  have hpath := hbelow below hmem
  simp only [nestingPaths, List.mem_cons, List.not_mem_nil, or_false] at hpath
  have hcases : below = twoLines ∨ below = [110, slash] ++ twoLines ∨ below = .of "sub/x" := by
    rcases hname with rfl | rfl
    · exact hpath
    · rcases hpath with hpath | hpath | hpath
      · exact absurd (List.cons.inj hpath).1 (by decide)
      · exact .inl (List.append_cancel_left hpath)
      · have hsub : Text.of "sub/x" = 115 :: [117, 98, 47, 120] := by decide
        rw [hsub] at hpath
        exact absurd (List.cons.inj hpath).1 (by decide)
  rcases hcases with rfl | rfl | rfl
  · exact fileRules_readable (by decide) (.inl (by decide))
  · exact fileRules_readable (by decide) (.inl (by decide))
  · exact fileRules_readable (by decide) (.inr (by decide))

theorem isText_ascii {t : Text} (h : ∀ c ∈ t, c < 128) : IsText t := by
  refine ⟨?_, fun unit hunit => (h unit hunit).trans (by decide)⟩
  rw [WellFormed, codePoints_of_basic fun unit hunit => (h unit hunit).trans (by decide)]
  intro point hpoint
  have := h point hpoint
  rw [Bool.eq_false_iff, ne_eq, isSurrogate_iff]
  omega

theorem answers_exact_nesting : ∃ ignored, nestingRepository.checkPaths nestingPaths = .ok ignored ∧ ignored.Nodup ∧
    ∀ path, path ∈ ignored ↔
      path ∈ nestingPaths ∧ ReportedBy (Reports fun _ => fileRules twoLines) nestingRepository path :=
  ((answers_exact fun _ => fileRules twoLines).2 nestingRepository nestingPaths
    (fun path hpath => isText_ascii ((by decide : ∀ path ∈ nestingPaths, ∀ c ∈ path, c < 128) path hpath))
    fun _ _ _ => nesting_understood).2.2.2

/-- The path `l/a` beneath a symbolic link `l`, which Git's rules match. -/
def linkedPath : Text := [108, slash, 97]

def linkedRepository : Repository :=
  .checked (fileScope linkedPath ([46, slash] ++ linkedPath)) (fun path => path = linkedPath) [] List.nodup_nil nofun

/-- A path beneath a link is asked of no repository. -/
theorem linked_not_asked :
    ((fileRules linkedPath).Apply (fileScope linkedPath ([46, slash] ++ linkedPath)) ∧
      (fileRules linkedPath).Reports ([46, slash] ++ linkedPath)) ∧
    linkedRepository.checkPaths [linkedPath] = .ok [] ∧
    ¬∃ name scope candidates below, Asked linkedRepository [linkedPath] name scope candidates ∧ below ∈ candidates := by
  refine ⟨⟨fileRules_apply (.plain (by decide)), by decide, fun hrefused => ?_⟩, ?_, ?_⟩
  · exact absurd (fileRules_below.mp hrefused) (by decide)
  · have hgroups : groupCandidates [] (fun path => path = linkedPath) [linkedPath] = {} := rfl
    rw [linkedRepository, Repository.checkPaths, createPathChecker]
    simp only [List.length_nil, List.ofFn_zero, sortRepositories, List.mergeSort_nil, List.map_nil, hgroups]
    rfl
  · rintro ⟨name, scope, candidates, below, h, hbelow⟩
    cases h with
    | own =>
      obtain ⟨⟨hmem, -, hdirect⟩, -⟩ := mem_own.mp hbelow
      obtain rfl := List.mem_singleton.mp hmem
      cases hdirect
    | nested i => exact i.elim0

end Veryfront.Sync.GitIgnore
