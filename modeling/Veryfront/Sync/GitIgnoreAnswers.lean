import Veryfront.Sync.GitQuoting

/-!
# Answers of Git are exact

What is reported is what the rules match, but for what lies in a submodule that Git refuses. Every candidate is asked of the
innermost repository that it is in.
-/

namespace Veryfront.Sync.GitIgnore

open Lib

/-! ## What Git does -/

/-- Where in its repository a project directory is, the submodules there that are not checked out, and the arguments that the
rules match. -/
structure Rules where
  location : Text
  submodules : List Text
  matched : Text → Bool

namespace Rules

variable (rules : Rules)

def Below (submodule argument : Text) : Prop :=
  ∃ path, argument = [46, slash] ++ path ∧ submodule ++ [slash] <+: rules.location ++ path

def Refused (argument : Text) : Prop := ∃ submodule ∈ rules.submodules, rules.Below submodule argument

def Reports (argument : Text) : Prop := rules.matched argument = true ∧ ¬rules.Refused argument

end Rules

def refusal (argument submodule : Text) : Text :=
  .of "fatal: Pathspec '" ++ argument ++ .of "' is in submodule '" ++ submodule ++ .of "'\n"

inductive Rules.Answer (rules : Rules) (arguments : List Text) : Option CommandResult → Prop
  | matched {printed lines : List Text} (clean : ∀ argument ∈ arguments, ¬rules.Refused argument)
    (perm : printed.Perm (arguments.filter rules.matched)) (nonempty : printed ≠ []) (lines_eq : List.Forall₂ Printed printed lines) :
    rules.Answer arguments (some ⟨true, 0, printLines lines, [], false⟩)
  | unmatched (clean : ∀ argument ∈ arguments, ¬rules.Refused argument)
    (none_matched : ∀ argument ∈ arguments, rules.matched argument = false) : rules.Answer arguments (some ⟨false, 1, [], [], false⟩)
  | refused {argument submodule : Text} (mem : argument ∈ arguments) (mem' : submodule ∈ rules.submodules)
    (below : rules.Below submodule argument) : rules.Answer arguments (some ⟨false, 128, [], refusal argument submodule, false⟩)

structure Rules.Apply (rules : Rules) (scope : CheckIgnoreScope) : Prop where
  shown : scope.dependencies.runCommand scope.baseDir showPrefixCommand = some ⟨true, 0, rules.location ++ [lf], [], false⟩
  check_ignore : ∀ arguments ≠ [],
    rules.Answer arguments (scope.dependencies.runCommand scope.baseDir (checkIgnoreCommand ++ arguments))

def Rules.Readable (rules : Rules) (argument : Text) : Prop :=
  ∀ submodule ∈ rules.submodules, rules.Below submodule argument →
    submodulePathspecError (refusal argument submodule) = some (argument, submodule)

variable {rules : Rules} {scope : CheckIgnoreScope}

/-! ## Refusals -/

theorem findSome?_reverse_range {α : Type} {f : Nat → Option α} {n k : Nat} {v : α} (hk : k < n) (h : f k = some v)
    (hnone : ∀ j, k < j → j < n → f j = none) : (List.range n).reverse.findSome? f = some v := by
  induction n with
  | zero => cases hk
  | succ n ih =>
    rw [List.range_succ, List.reverse_append, List.reverse_singleton, List.singleton_append, List.findSome?_cons]
    by_cases hkn : k = n
    · subst hkn
      rw [h]
    · rw [hnone n (by omega) (by omega)]
      exact ih (by omega) fun j hj hjn => hnone j hj (by omega)

theorem beforeLastQuote_append {t : Text} (hne : t ≠ []) : beforeLastQuote (t ++ [singleQuote]) = some t := by
  have hpos := List.length_pos_iff.mpr hne
  rw [beforeLastQuote, List.length_append, List.length_singleton, List.range_succ, List.reverse_append, List.reverse_singleton,
    List.singleton_append, List.find?_cons_of_pos, Option.map_some, List.take_left]
  simp [hpos]

theorem length_between : between.length = 19 ∧ between[18]? = some singleQuote := by decide

variable {submodule : Text}

theorem nothing_behind (hquote : singleQuote ∉ submodule) {i : Nat} (hpos : 0 < i)
    (hpre : between.isPrefixOf ((between ++ submodule ++ [singleQuote]).drop i) = true) :
    (between ++ submodule ++ [singleQuote]).drop (i + between.length) = [] := by
  obtain ⟨hlength, hlast⟩ := length_between
  obtain ⟨rest, hrest⟩ := List.isPrefixOf_iff_prefix.mp hpre
  have hunit : (between ++ submodule ++ [singleQuote])[i + 18]? = some singleQuote := by
    rw [← List.getElem?_drop, ← hrest, List.getElem?_append_left (by omega), hlast]
  have hend : 19 + submodule.length ≤ i + 18 := by
    by_contra hlt
    rw [List.append_assoc, List.getElem?_append_right (by omega), List.getElem?_append_left (by omega)] at hunit
    exact hquote (List.mem_of_getElem? hunit)
  rw [List.drop_eq_nil_iff]
  simp only [List.length_append, List.length_singleton, hlength]
  omega

variable {argument : Text}

theorem pathspecCaptures_append {rest : Text} (hargument : argument ≠ []) (hsubmodule : submodule ≠ [])
    (hlines : ∀ c ∈ argument ++ submodule, isLineTerminator c = false) (hquote : singleQuote ∉ submodule) :
    pathspecCaptures (argument ++ (between ++ submodule ++ [singleQuote]) ++ lf :: rest) = some (argument, submodule) := by
  have hline : (argument ++ (between ++ submodule ++ [singleQuote]) ++ lf :: rest).takeWhile (fun c => !isLineTerminator c) =
      argument ++ (between ++ submodule ++ [singleQuote]) := by
    rw [List.takeWhile_append_of_pos, List.takeWhile_cons_of_neg (by decide), List.append_nil]
    intro c hc
    simp only [List.mem_append] at hc hlines
    rcases hc with hc | (hc | hc) | hc
    · rw [hlines c (.inl hc)]
      rfl
    · exact (by decide : ∀ c ∈ between, (!isLineTerminator c) = true) c hc
    · rw [hlines c (.inr hc)]
      rfl
    · rw [List.mem_singleton.mp hc]
      decide
  have hlength := length_between.1
  have hlt : argument.length < (argument ++ (between ++ submodule ++ [singleQuote])).length := by
    simp only [List.length_append, hlength]
    omega
  rw [pathspecCaptures]
  simp only [hline]
  refine findSome?_reverse_range hlt ?_ ?_
  · rw [List.drop_left, if_pos ⟨List.length_pos_iff.mpr hargument, by simp [List.append_assoc]⟩, ← List.drop_drop, List.drop_left,
      List.append_assoc, List.drop_left, beforeLastQuote_append hsubmodule, Option.map_some, List.take_left]
  · intro j hj _
    obtain ⟨i, rfl⟩ := Nat.exists_eq_add_of_lt hj
    have hdrop : ∀ n, (argument ++ (between ++ submodule ++ [singleQuote])).drop (argument.length + n) =
        (between ++ submodule ++ [singleQuote]).drop n := fun n => by rw [← List.drop_drop, List.drop_left]
    rw [Nat.add_assoc, Nat.add_assoc _ (i + 1), hdrop, hdrop]
    split
    · rename_i h
      rw [nothing_behind hquote (Nat.succ_pos i) h.2]
      rfl
    · rfl

theorem submodulePathspecError_cons {c : Nat} (hc : c ≠ 80) (t : Text) :
    submodulePathspecError (c :: t) = submodulePathspecError t := by
  have hstart : pathspecStart.isPrefixOf (c :: t) = false := by
    rw [show pathspecStart = 80 :: pathspecStart.tail from by decide]
    simp [List.isPrefixOf, Ne.symm hc]
  rw [submodulePathspecError, List.tails, List.findSome?_cons, hstart]
  rfl

theorem submodulePathspecError_append {t : Text} (ht : 80 ∉ t) (rest : Text) :
    submodulePathspecError (t ++ rest) = submodulePathspecError rest := by
  induction t with
  | nil => rfl
  | cons c t ih =>
    obtain ⟨hc, ht⟩ := not_or.mp (mt List.mem_cons.mpr ht)
    rw [List.cons_append, submodulePathspecError_cons (Ne.symm hc), ih ht]

theorem submodulePathspecError_refusal (argument submodule : Text) : submodulePathspecError (refusal argument submodule) =
    (pathspecCaptures (argument ++ (between ++ submodule ++ [singleQuote]) ++ [lf])).or
      (submodulePathspecError (argument ++ (between ++ submodule ++ [singleQuote]) ++ [lf])) := by
  have hwords : Text.of "fatal: Pathspec '" = Text.of "fatal: " ++ pathspecStart := by decide
  have hend : Text.of "'\n" = [singleQuote] ++ [lf] := by decide
  have htext : refusal argument submodule =
      Text.of "fatal: " ++ (pathspecStart ++ (argument ++ (between ++ submodule ++ [singleQuote]) ++ [lf])) := by
    rw [refusal, hwords, hend]
    simp only [between, List.append_assoc]
  rw [htext, submodulePathspecError_append (by decide)]
  generalize argument ++ (between ++ submodule ++ [singleQuote]) ++ [lf] = rest
  have htails : (pathspecStart ++ rest).tails = (pathspecStart ++ rest) :: (pathspecStart.tail ++ rest).tails := by
    rw [show pathspecStart = 80 :: pathspecStart.tail from by decide]
    rfl
  have hbehind := submodulePathspecError_append (t := pathspecStart.tail) (by decide) rest
  rw [submodulePathspecError] at hbehind
  rw [submodulePathspecError, htails, List.findSome?_cons, if_pos (by simp), List.drop_left, hbehind]
  cases pathspecCaptures rest <;> rfl

theorem readable_of_line (hargument : argument ≠ []) (hline : ∀ c ∈ argument, isLineTerminator c = false)
    (hsubmodules : ∀ submodule ∈ rules.submodules, submodule ≠ [] ∧ singleQuote ∉ submodule ∧
      ∀ c ∈ submodule, isLineTerminator c = false) : rules.Readable argument := by
  intro submodule hmem _
  obtain ⟨hne, hquote, hlines⟩ := hsubmodules submodule hmem
  rw [submodulePathspecError_refusal,
    pathspecCaptures_append hargument hne (fun c hc => (List.mem_append.mp hc).elim (hline c) (hlines c)) hquote]
  rfl

theorem submodulePathspecError_of_lineEnd (hline : ∃ c ∈ argument, isLineTerminator c = true)
    (hbetween : ¬between <:+: argument)
    (hstart : ¬pathspecStart <:+: argument ++ (between ++ submodule ++ [singleQuote]) ++ [lf]) :
    submodulePathspecError (refusal argument submodule) = none := by
  obtain ⟨c, hfound⟩ := Option.isSome_iff_exists.mp (List.find?_isSome.mpr hline)
  obtain ⟨hc, before, behind, rfl, hbefore⟩ := List.find?_eq_some_iff_append.mp hfound
  have hcaptures : pathspecCaptures (before ++ c :: behind ++ (between ++ submodule ++ [singleQuote]) ++ [lf]) = none := by
    have hcut : (before ++ c :: behind ++ (between ++ submodule ++ [singleQuote]) ++ [lf]).takeWhile (fun c => !isLineTerminator c) =
        before := by
      rw [List.append_assoc, List.append_assoc, List.takeWhile_append_of_pos hbefore, List.cons_append,
        List.takeWhile_cons_of_neg (by simp [hc]), List.append_nil]
    rw [pathspecCaptures]
    simp only [hcut, List.findSome?_eq_none_iff]
    intro i _
    refine if_neg fun h => hbetween ?_
    exact (List.isPrefixOf_iff_prefix.mp h.2).isInfix.trans
      ((List.drop_suffix i before).isInfix.trans (List.infix_append' [] before (c :: behind)))
  rw [submodulePathspecError_refusal, hcaptures, Option.none_or, submodulePathspecError, List.findSome?_eq_none_iff]
  intro t ht
  refine if_neg fun h => hstart ?_
  exact (List.isPrefixOf_iff_prefix.mp h).isInfix.trans ((List.mem_tails ..).mp ht).isInfix

/-! ## Submodules -/

theorem trim_length (location : Text) : (location ++ [lf]).trim.length ≤ location.length := by
  have hstart (t : Text) : t.trimStart.length ≤ t.length := (List.dropWhile_sublist _).length_le
  have hsuffix : (location ++ [lf]).trimStart <:+ location ++ [lf] := List.dropWhile_suffix _
  rw [Text.trim, List.length_reverse]
  rcases List.eq_nil_or_concat (location ++ [lf]).trimStart with hnil | ⟨front, last, hconcat⟩
  · rw [hnil]
    exact Nat.zero_le _
  · rw [List.concat_eq_append] at hconcat
    rw [hconcat] at hsuffix ⊢
    obtain ⟨before, hbefore⟩ := hsuffix
    rw [← List.append_assoc] at hbefore
    obtain ⟨rfl, hlast⟩ := List.append_inj' hbefore rfl
    obtain rfl : last = lf := List.singleton_inj.mp hlast
    rw [List.reverse_append, List.reverse_singleton, List.singleton_append, Text.trimStart,
      List.dropWhile_cons_of_pos (by decide)]
    have := hstart front.reverse
    rw [List.length_reverse] at this
    rw [List.length_append]
    exact this.trans (Nat.le_add_left ..)

theorem prefix_of_segments {t : Text} {n : Nat} (hpos : 0 < n) (hlt : n < (t.splitOn slash).length) :
    [slash].intercalate ((t.splitOn slash).take n) ++ [slash] <+: t := by
  have hfront : (t.splitOn slash).take n ≠ [] := by
    rw [ne_eq, List.take_eq_nil_iff, not_or]
    exact ⟨by omega, List.ne_nil_of_length_pos (by omega)⟩
  have hback : (t.splitOn slash).drop n ≠ [] := by
    rw [ne_eq, List.drop_eq_nil_iff]
    omega
  have hall : t = [slash].intercalate ((t.splitOn slash).take n ++ (t.splitOn slash).drop n) := by
    rw [List.take_append_drop, List.intercalate_splitOn]
  have happend : ∀ {front back : List Text}, front ≠ [] → back ≠ [] →
      [slash].intercalate (front ++ back) = [slash].intercalate front ++ [slash] ++ [slash].intercalate back := by
    intro front back hfront hback
    induction front with
    | nil => exact absurd rfl hfront
    | cons segment front ih =>
      cases front with
      | nil => rw [List.singleton_append, List.intercalate_cons_of_ne_nil hback, List.intercalate_singleton, List.append_assoc]
      | cons next front =>
        rw [List.cons_append, List.intercalate_cons_of_ne_nil (by simp), ih (List.cons_ne_nil _ _),
          List.intercalate_cons_of_ne_nil (List.cons_ne_nil _ _)]
        simp only [List.append_assoc]
  rw [happend hfront hback] at hall
  exact ⟨_, hall.symm⟩

theorem below_of_root {pathspec repositoryPrefix root : Text}
    (h : submoduleArgumentRoot pathspec submodule repositoryPrefix = some root)
    (hlength : repositoryPrefix.length ≤ rules.location.length) (hbelow : rules.Below submodule pathspec)
    (hpre : root ++ [slash] <+: argument) : rules.Below submodule argument := by
  obtain ⟨path, rfl, hpath⟩ := hbelow
  obtain ⟨rest, rfl⟩ := hpre
  rw [submoduleArgumentRoot] at h
  obtain ⟨n, hn, hroot⟩ := List.mem_map.mp (List.mem_of_find?_eq_some h)
  rw [List.mem_range'_1] at hn
  generalize hrelative : (if repositoryPrefix ≠ [] ∧ repositoryPrefix.isPrefixOf submodule then
    submodule.drop repositoryPrefix.length else submodule) = relative at h
  have hname : root = [46, slash] ++ relative := by simpa using List.find?_some h
  have hfront : root ++ [slash] <+: [46, slash] ++ path := hroot ▸ prefix_of_segments hn.1 (by omega)
  subst hname
  obtain ⟨after, hafter⟩ := hfront
  simp only [List.append_assoc, List.cons_append, List.nil_append, List.cons.injEq, true_and] at hafter
  subst hafter
  refine ⟨relative ++ [slash] ++ rest, by simp, ?_⟩
  have hwhole : submodule ++ [slash] <+: (rules.location ++ relative ++ [slash]) ++ after := by
    simpa only [List.append_assoc, List.singleton_append] using hpath
  have hshort : (submodule ++ [slash]).length ≤ (rules.location ++ relative ++ [slash]).length := by
    simp only [List.length_append, List.length_singleton]
    rw [← hrelative]
    split
    · rw [List.length_drop]
      omega
    · omega
  have := List.prefix_of_prefix_length_le hwhole (List.prefix_append _ _) hshort
  exact this.trans ⟨rest, by simp only [List.append_assoc]⟩

/-! ## One batch -/

theorem repositoryPrefix_eq (happly : rules.Apply scope) : scope.repositoryPrefix = .ok (rules.location ++ [lf]).trim := by
  rw [CheckIgnoreScope.repositoryPrefix, runGitIgnoreQuery, happly.shown]
  rfl

theorem argumentPrefix_head (relativeProjectDir : Text) : (argumentPrefix relativeProjectDir).head? = some 46 := by
  rw [argumentPrefix]
  split <;> rfl

def Found (rules : Rules) (scope : CheckIgnoreScope) (arguments ignored : List Text) : Prop :=
  ignored.Nodup ∧ ∀ path, path ∈ ignored ↔ scope.argumentPrefix ++ path ∈ arguments ∧ rules.Reports (scope.argumentPrefix ++ path)

def IsArgument (rules : Rules) (scope : CheckIgnoreScope) (argument : Text) : Prop :=
  IsText argument ∧ (∃ path, argument = scope.argumentPrefix ++ path) ∧ rules.Readable argument

variable {arguments : List Text}

theorem exists_paths (h : ∀ argument ∈ arguments, IsArgument rules scope argument) :
    ∃ paths : List Text, arguments = paths.map (scope.argumentPrefix ++ ·) := by
  induction arguments with
  | nil => exact ⟨[], rfl⟩
  | cons argument arguments ih =>
    obtain ⟨hargument, harguments⟩ := List.forall_mem_cons.mp h
    obtain ⟨path, rfl⟩ := hargument.2.1
    obtain ⟨paths, rfl⟩ := ih harguments
    exact ⟨path :: paths, rfl⟩

theorem found_of_matched {printed lines : List Text} (h : ∀ argument ∈ arguments, IsArgument rules scope argument)
    (hnodup : arguments.Nodup) (clean : ∀ argument ∈ arguments, ¬rules.Refused argument)
    (perm : printed.Perm (arguments.filter rules.matched)) (hlines : List.Forall₂ Printed printed lines) :
    Found rules scope arguments (parseCheckIgnoreOutput (printLines lines) scope.argumentPrefix) := by
  have hmem : ∀ argument, argument ∈ printed ↔ argument ∈ arguments ∧ rules.matched argument = true := fun argument => by
    rw [perm.mem_iff, List.mem_filter]
  obtain ⟨paths, rfl⟩ := exists_paths fun argument hargument => h argument ((hmem argument).mp hargument).1
  have hparse := parseCheckIgnoreOutput_printed (argumentPrefix_head scope.relativeProjectDir)
    (fun path hpath => (h _ ((hmem _).mp (List.mem_map_of_mem hpath)).1).1) hlines
  rw [CheckIgnoreScope.argumentPrefix, hparse]
  refine ⟨List.Nodup.of_map _ (perm.nodup_iff.mpr (hnodup.filter _)), fun path => ?_⟩
  rw [← List.mem_map_of_injective (List.append_right_injective scope.argumentPrefix), hmem]
  exact ⟨fun hpath => ⟨hpath.1, hpath.2, clean _ hpath.1⟩, fun hpath => ⟨hpath.1, hpath.2.1⟩⟩

theorem refused_of_dropped {other : Text} (mem : submodule ∈ rules.submodules)
    (below : rules.Below submodule argument) (hother : other ∈ arguments)
    (hno : other ∉ remainingArguments arguments argument (submoduleArgumentRoot argument submodule (rules.location ++ [lf]).trim)) :
    rules.Refused other := by
  refine ⟨submodule, mem, ?_⟩
  rw [remainingArguments, List.mem_filter, decide_eq_true_eq, not_and] at hno
  have hno := hno hother
  rw [not_and] at hno
  by_cases hsame : other = argument
  · exact hsame ▸ below
  · have hany := hno hsame
    rw [Bool.not_eq_true', Bool.not_eq_false] at hany
    obtain ⟨root, hroot, hpre⟩ := (Option.any_eq_true ..).mp hany
    exact below_of_root hroot (trim_length _) below (List.isPrefixOf_iff_prefix.mp hpre)

theorem checkIgnoreBatch_found (happly : rules.Apply scope) (hnodup : arguments.Nodup)
    (h : ∀ argument ∈ arguments, IsArgument rules scope argument) :
    ∃ ignored, checkIgnoreBatch scope arguments = .ok (some ignored) ∧ Found rules scope arguments ignored := by
  induction hn : arguments.length using Nat.strong_induction_on generalizing arguments with
  | h n ih =>
    rw [checkIgnoreBatch]
    split
    · rename_i hempty
      subst hempty
      exact ⟨[], rfl, List.nodup_nil, by simp⟩
    · rename_i hne
      have hanswer := happly.check_ignore arguments hne
      generalize hresult : scope.dependencies.runCommand scope.baseDir (checkIgnoreCommand ++ arguments) = result at hanswer
      cases hanswer with
      | @matched printed lines clean perm nonempty hlines =>
        have hrun : runGitIgnoreQuery scope.dependencies scope.baseDir (checkIgnoreCommand ++ arguments) [1] =
            .ok (.output (printLines lines) 0) := by
          rw [runGitIgnoreQuery, hresult]
          rfl
        rw [hrun]
        exact ⟨_, rfl, found_of_matched h hnodup clean perm hlines⟩
      | unmatched clean hnone =>
        have hrun : runGitIgnoreQuery scope.dependencies scope.baseDir (checkIgnoreCommand ++ arguments) [1] = .ok (.output [] 1) := by
          rw [runGitIgnoreQuery, hresult]
          rfl
        rw [hrun]
        refine ⟨[], rfl, List.nodup_nil, fun path => ⟨nofun, fun hpath => ?_⟩⟩
        have := hnone _ hpath.1
        rw [hpath.2.1] at this
        cases this
      | @refused argument submodule mem mem' below =>
        have hread := (h argument mem).2.2 submodule mem' below
        have hrun : runGitIgnoreQuery scope.dependencies scope.baseDir (checkIgnoreCommand ++ arguments) [1] =
            .ok (.submodulePath argument submodule) := by
          rw [runGitIgnoreQuery, hresult]
          simp only [hread]
          rfl
        rw [hrun, repositoryPrefix_eq happly]
        set root := submoduleArgumentRoot argument submodule (rules.location ++ [lf]).trim with hroot
        have hremaining : ∀ other, other ∈ remainingArguments arguments argument root → other ∈ arguments :=
          fun other hother => List.mem_of_mem_filter hother
        have hdropped : ∀ other ∈ arguments, other ∉ remainingArguments arguments argument root → rules.Refused other :=
          fun other => refused_of_dropped mem' below
        have hless : (remainingArguments arguments argument root).length < arguments.length :=
          List.length_filter_lt_length_iff_exists.mpr ⟨argument, mem, by simp⟩
        obtain ⟨ignored, hcheck, hfound, hpaths⟩ := @ih _ (hn ▸ hless) (remainingArguments arguments argument root)
          (hnodup.filter _) (fun other hother => h other (hremaining other hother)) rfl
        have hstep : ∀ path, path ∈ ignored ↔
            scope.argumentPrefix ++ path ∈ arguments ∧ rules.Reports (scope.argumentPrefix ++ path) := by
          intro path
          rw [hpaths]
          refine ⟨fun hpath => ⟨hremaining _ hpath.1, hpath.2⟩, fun hpath => ⟨?_, hpath.2⟩⟩
          exact by_contra fun hno => hpath.2.2 (hdropped _ hpath.1 hno)
        refine ⟨ignored, ?_, hfound, hstep⟩
        change (if _ then _ else checkIgnoreBatch scope (remainingArguments arguments argument root)) = _
        rw [if_neg (Nat.ne_of_lt hless), hcheck]

/-! ## One repository -/

theorem checkBatches_found (happly : rules.Apply scope) {batches : List (List Text)} (hnodup : batches.flatten.Nodup)
    (h : ∀ argument ∈ batches.flatten, IsArgument rules scope argument) (ignored : List Text) :
    ∃ found, checkBatches scope ignored batches = .ok (ignored ++ found) ∧ Found rules scope batches.flatten found := by
  induction batches generalizing ignored with
  | nil => exact ⟨[], by rw [checkBatches, List.append_nil], List.nodup_nil, by simp⟩
  | cons batch batches ih =>
    rw [List.flatten_cons] at hnodup h
    obtain ⟨hbatch, hbatches, hdisjoint⟩ := List.nodup_append'.mp hnodup
    obtain ⟨first, hfirst, hnodup', hmem⟩ := checkIgnoreBatch_found happly hbatch fun a ha => h a (List.mem_append_left _ ha)
    obtain ⟨found, hrest, hnodup'', hmem'⟩ := ih hbatches (fun a ha => h a (List.mem_append_right _ ha)) (ignored ++ first)
    refine ⟨first ++ found, ?_, ?_, fun path => ?_⟩
    · rw [checkBatches, hfirst, ← List.append_assoc]
      exact hrest
    · refine hnodup'.append hnodup'' fun path hpath hpath' => ?_
      exact hdisjoint ((hmem path).mp hpath).1 ((hmem' path).mp hpath').1
    · rw [List.mem_append, hmem, hmem', List.flatten_cons, List.mem_append, or_and_right]

theorem flatten_batchesFrom (batch : List Text) (batchLength : Nat) (arguments : List Text) :
    (batchesFrom batch batchLength arguments).flatten = batch ++ arguments := by
  induction arguments generalizing batch batchLength with
  | nil => simp [batchesFrom]
  | cons argument arguments ih =>
    rw [batchesFrom]
    split
    · rw [List.flatten_cons, ih, List.singleton_append]
    · rw [ih, List.append_assoc, List.singleton_append]

theorem checkOwnPaths_found (happly : rules.Apply scope) {candidates : List Text} (hnodup : candidates.Nodup)
    (h : ∀ path ∈ candidates, IsText (scope.argumentPrefix ++ path) ∧ rules.Readable (scope.argumentPrefix ++ path)) :
    ∃ ignored, checkOwnPaths scope candidates = .ok ignored ∧ ignored.Nodup ∧
      ∀ path, path ∈ ignored ↔ path ∈ candidates ∧ rules.Reports (scope.argumentPrefix ++ path) := by
  have hinjective : Function.Injective (scope.argumentPrefix ++ · : Text → Text) := List.append_right_injective _
  rw [checkOwnPaths]
  split
  · rename_i hempty
    obtain rfl := List.length_eq_zero_iff.mp hempty
    exact ⟨[], rfl, List.nodup_nil, by simp⟩
  · have hflatten : (batchArguments (candidates.map (scope.argumentPrefix ++ ·))).flatten = candidates.map (scope.argumentPrefix ++ ·) := by
      rw [batchArguments, flatten_batchesFrom, List.nil_append]
    obtain ⟨found, hcheck, hfound, hmem⟩ := checkBatches_found happly (hflatten ▸ hnodup.map hinjective) (by
      intro argument hargument
      rw [hflatten] at hargument
      obtain ⟨path, hpath, rfl⟩ := List.mem_map.mp hargument
      exact ⟨(h path hpath).1, ⟨path, rfl⟩, (h path hpath).2⟩) []
    refine ⟨found, by rw [hcheck, List.nil_append], hfound, fun path => ?_⟩
    rw [hmem, hflatten, List.mem_map_of_injective hinjective]

theorem checkBatches_error {batches : List (List Text)} {batch : List Text} (hmem : batch ∈ batches)
    (hfails : checkIgnoreBatch scope batch = gitIgnoreUnavailableError)
    (hfound : ∀ other ∈ batches, checkIgnoreBatch scope other ≠ .ok none) (ignored : List Text) :
    ∃ error, checkBatches scope ignored batches = .error error := by
  induction batches generalizing ignored with
  | nil => cases hmem
  | cons first batches ih =>
    rw [checkBatches]
    cases hfirst : checkIgnoreBatch scope first with
    | error error => exact ⟨error, rfl⟩
    | ok result =>
      cases result with
      | none => exact absurd hfirst (hfound first List.mem_cons_self)
      | some result =>
        rcases List.mem_cons.mp hmem with rfl | hmem
        · rw [hfails] at hfirst
          cases hfirst
        · exact ih hmem (fun other hother => hfound other (List.mem_cons_of_mem _ hother)) _

/-- One refusal of an argument that holds a line end fails the whole query. -/
theorem checkOwnPaths_lineEnd {candidates batch : List Text}
    (hbatch : batch ∈ batchArguments (candidates.map (scope.argumentPrefix ++ ·))) (hargument : argument ∈ batch)
    (hresult : scope.dependencies.runCommand scope.baseDir (checkIgnoreCommand ++ batch) =
      some ⟨false, 128, [], refusal argument submodule, false⟩)
    (hline : ∃ c ∈ argument, isLineTerminator c = true) (hbetween : ¬between <:+: argument)
    (hstart : ¬pathspecStart <:+: argument ++ (between ++ submodule ++ [singleQuote]) ++ [lf])
    (hwords : (asciiLower (refusal argument submodule)).includes "not a git repository" = false)
    (hmetadata : scope.dependencies.hasGitMetadata scope.baseDir = true)
    (hfound : ∀ other ∈ batchArguments (candidates.map (scope.argumentPrefix ++ ·)), checkIgnoreBatch scope other ≠ .ok none) :
    ∃ error, checkOwnPaths scope candidates = .error error := by
  have hrun : runGitIgnoreQuery scope.dependencies scope.baseDir (checkIgnoreCommand ++ batch) [1] = gitIgnoreUnavailableError := by
    rw [runGitIgnoreQuery, hresult]
    simp [submodulePathspecError_of_lineEnd hline hbetween hstart, hwords, hmetadata]
  have hfails : checkIgnoreBatch scope batch = gitIgnoreUnavailableError := by
    rw [checkIgnoreBatch, if_neg (List.ne_nil_of_mem hargument), hrun]
    rfl
  obtain ⟨error, herror⟩ := checkBatches_error hbatch hfails hfound []
  refine ⟨error, ?_⟩
  rw [checkOwnPaths, if_neg, herror]
  intro hempty
  obtain rfl := List.length_eq_zero_iff.mp hempty
  rw [List.mem_singleton.mp hbatch] at hargument
  cases hargument

/-! ## Groups -/

section Groups

variable {directories : List Text} {isBeneathSymlink : Text → Bool} {paths : List Text}

def place (directories : List Text) (path : Text) : Option Nat := directories.findIdx? fun directory => Beneath directory path

def belowPlace (directories : List Text) (k : Nat) (path : Text) : Text := path.drop ((directories.getD k []).length + 1)

def Asks (isBeneathSymlink : Text → Bool) (paths : List Text) (path : Text) : Prop :=
  path ∈ paths ∧ path ≠ [] ∧ isBeneathSymlink path = false

structure Grouped (directories cs : List Text) (candidates : Candidates) : Prop where
  own : candidates.own = cs.filter fun path => place directories path = none
  nested : ∀ k, (candidates.nested.get? k).getD [] =
    (cs.filter fun path => place directories path = some k).map (belowPlace directories k)
  nonempty : ∀ k grouped, candidates.nested.get? k = some grouped → grouped ≠ []

theorem grouped_add {cs : List Text} {candidates : Candidates} (h : Grouped directories cs candidates) (path : Text) :
    Grouped directories (cs ++ [path]) (candidates.add directories path) := by
  rw [Candidates.add]
  cases hplace : directories.findIdx? fun directory => Beneath directory path with
  | none =>
    have hplace' : place directories path = none := hplace
    constructor
    · simp only [List.filter_append, h.own]
      rw [List.filter_cons_of_pos (by simpa using hplace')]
      rfl
    · intro k
      rw [List.filter_append, List.filter_cons_of_neg (by simp [hplace'])]
      simpa using h.nested k
    · exact h.nonempty
  | some k =>
    have hplace' : place directories path = some k := hplace
    constructor
    · simp only [List.filter_append, h.own]
      rw [List.filter_cons_of_neg (by simp [hplace'])]
      simp
    · intro j
      rw [List.filter_append, List.map_append, ← h.nested j]
      simp only [OrdMap.get?_set]
      by_cases hj : j = k
      · subst hj
        rw [if_pos rfl, List.filter_cons_of_pos (by simpa using hplace')]
        rfl
      · have hno : place directories path ≠ some j := fun hsame => hj (Option.some.inj (hsame.symm.trans hplace'))
        rw [if_neg hj, List.filter_cons_of_neg (by simpa using hno)]
        simp
    · intro j grouped hget
      simp only [OrdMap.get?_set] at hget
      split at hget
      · rw [← Option.some.inj hget]
        exact List.append_ne_nil_of_right_ne_nil _ (List.cons_ne_nil _ _)
      · exact h.nonempty j grouped hget

theorem grouped_foldl (cs : List Text) : Grouped directories cs (cs.foldl (·.add directories ·) {}) := by
  induction cs using List.reverseRecOn with
  | nil => exact ⟨rfl, fun _ => rfl, nofun⟩
  | append_singleton cs path ih =>
    rw [List.foldl_append]
    exact grouped_add ih path

theorem nodup_eraseDups (l : List Text) : l.eraseDups.Nodup := by
  induction hn : l.length using Nat.strong_induction_on generalizing l with
  | h n ih =>
    cases l with
    | nil => exact List.nodup_nil
    | cons a l =>
      rw [List.eraseDups_cons, List.nodup_cons]
      refine ⟨fun hmem => ?_, ih _ ?_ _ rfl⟩
      · simpa using List.mem_eraseDups.mp hmem
      · rw [← hn, List.length_cons]
        exact Nat.lt_succ_of_le (List.length_filter_le ..)

theorem mem_own {path : Text} : path ∈ (groupCandidates directories isBeneathSymlink paths).own ↔
    Asks isBeneathSymlink paths path ∧ place directories path = none := by
  rw [groupCandidates, (grouped_foldl _).own]
  simp only [List.mem_filter, List.mem_eraseDups, decide_eq_true_eq, Asks, Bool.not_eq_true']

theorem own_nodup : (groupCandidates directories isBeneathSymlink paths).own.Nodup := by
  rw [groupCandidates, (grouped_foldl _).own]
  exact ((nodup_eraseDups _).filter _).filter _

theorem mem_group {k : Nat} {grouped : List Text}
    (h : (k, grouped) ∈ (groupCandidates directories isBeneathSymlink paths).nested.entries) {below : Text} :
    below ∈ grouped ↔ ∃ path, Asks isBeneathSymlink paths path ∧ place directories path = some k ∧
      below = belowPlace directories k path := by
  have hget := (OrdMap.get?_eq_some _ _ _).mpr h
  have hgrouped : Grouped directories _ (groupCandidates directories isBeneathSymlink paths) := grouped_foldl _
  have hnested := hgrouped.nested k
  rw [hget, Option.getD_some] at hnested
  rw [hnested, List.mem_map]
  simp only [List.mem_filter, List.mem_eraseDups, decide_eq_true_eq, Asks, Bool.not_eq_true']
  constructor
  · rintro ⟨path, ⟨hasks, hplace⟩, rfl⟩
    exact ⟨path, hasks, hplace, rfl⟩
  · rintro ⟨path, hasks, hplace, rfl⟩
    exact ⟨path, ⟨hasks, hplace⟩, rfl⟩

theorem exists_of_group {k : Nat} {grouped : List Text}
    (h : (k, grouped) ∈ (groupCandidates directories isBeneathSymlink paths).nested.entries) :
    ∃ path, place directories path = some k := by
  have hgrouped : Grouped directories _ (groupCandidates directories isBeneathSymlink paths) := grouped_foldl _
  obtain ⟨below, hbelow⟩ := List.exists_mem_of_ne_nil _ (hgrouped.nonempty k grouped ((OrdMap.get?_eq_some _ _ _).mpr h))
  obtain ⟨path, -, hplace, -⟩ := (mem_group h).mp hbelow
  exact ⟨path, hplace⟩

theorem exists_group {k : Nat} {path : Text} (h : Asks isBeneathSymlink paths path) (hplace : place directories path = some k) :
    ∃ grouped, (k, grouped) ∈ (groupCandidates directories isBeneathSymlink paths).nested.entries := by
  have hgrouped : Grouped directories _ (groupCandidates directories isBeneathSymlink paths) := grouped_foldl _
  have hnested := hgrouped.nested k
  cases hget : (groupCandidates directories isBeneathSymlink paths).nested.get? k with
  | some grouped => exact ⟨grouped, (OrdMap.get?_eq_some _ _ _).mp hget⟩
  | none =>
    rw [hget] at hnested
    have hmem : path ∈ (paths.eraseDups.filter fun path => path ≠ [] ∧ !isBeneathSymlink path).filter
        fun path => place directories path = some k := by
      simpa [List.mem_eraseDups, hplace] using ⟨h.1, h.2⟩
    exact absurd hnested.symm (List.ne_nil_of_mem (List.mem_map_of_mem hmem))

end Groups

end Veryfront.Sync.GitIgnore
