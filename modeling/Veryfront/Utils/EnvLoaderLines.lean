import Mathlib.Data.Fintype.EquivFin
import Veryfront.Utils.EnvLoaderProvenance

/-!
# Files of plain lines

A line with a plain name and a plain value is recorded as it stands. A load over two such files, the first and the last
one of a directory, comes to what each of them does.
-/

namespace Veryfront.EnvLoader

open Lib

variable {host : Host} {env env₁ env₂ : ProcessEnv host} {options : EnvDirLoadOptions} {scope : FileVars host}
  {state : LoadState host} {loaded : Loaded} {readTextFile : FileSystem} {file content name key raw text cwd : Text} {override : Bool}

/-! ## Lines -/

def IsPlain (raw : Text) : Prop := ∀ unit ∈ raw, unit ∉ Text.whiteSpace ∧ isQuote unit = false

instance (raw : Text) : Decidable (IsPlain raw) := inferInstanceAs (Decidable (∀ unit ∈ raw, _))

def definitionLine (key raw : Text) : Text := key ++ equals :: raw

/-- `${name}` -/
def reference (name : Text) : Text := 36 :: 123 :: (name ++ [125])

theorem not_mem_of_identifier (h : IsIdentifier name) {unit : Nat} (hunit : isIdentifierUnit unit = false) : unit ∉ name := by
  intro hmem
  rw [h.2 unit hmem] at hunit
  cases hunit

theorem isPlain_of_identifier (h : IsIdentifier name) : IsPlain name := by
  intro unit hmem
  have hunit := h.2 unit hmem
  constructor
  · intro hwhite
    have hall : ∀ unit ∈ Text.whiteSpace, isIdentifierUnit unit = false := by decide
    rw [hall unit hwhite] at hunit
    cases hunit
  · rw [Bool.eq_false_iff]
    intro hquote
    have hall : ∀ unit, isQuote unit = true → isIdentifierUnit unit = false := by
      intro unit hquote
      rcases (by simpa [isQuote] using hquote : unit = 34 ∨ unit = 39) with rfl | rfl <;> rfl
    rw [hall unit hquote] at hunit
    cases hunit

theorem isPlain_definitionLine (hkey : IsIdentifier key) (hraw : IsPlain raw) : IsPlain (definitionLine key raw) := by
  intro unit hunit
  rcases List.mem_append.mp hunit with hunit | hunit
  · exact isPlain_of_identifier hkey unit hunit
  · rcases List.mem_cons.mp hunit with rfl | hunit
    · decide
    · exact hraw unit hunit

theorem isPlain_reference (hname : IsIdentifier name) : IsPlain (reference name) := by
  intro unit hunit
  simp only [reference, List.mem_cons, List.mem_append, List.not_mem_nil, or_false] at hunit
  rcases hunit with rfl | rfl | hunit | rfl
  · decide
  · decide
  · exact isPlain_of_identifier hname unit hunit
  · decide

theorem trim_of_plain (h : IsPlain raw) : raw.trim = raw := by
  have hstart : ∀ {t : Text}, (∀ unit ∈ t, unit ∉ Text.whiteSpace) → t.trimStart = t := by
    intro t ht
    cases t with
    | nil => rfl
    | cons unit rest => exact List.dropWhile_cons_of_neg (by simpa using ht unit List.mem_cons_self)
  rw [Text.trim, hstart fun unit hunit => (h unit hunit).1, hstart, List.reverse_reverse]
  intro unit hunit
  exact (h unit (List.mem_reverse.mp hunit)).1

theorem beforeComment_of_plain (h : IsPlain raw) : beforeComment raw = none := by
  induction raw with
  | nil => rfl
  | cons unit rest ih =>
    rw [beforeComment, if_neg fun hcomment => (h unit List.mem_cons_self).1 hcomment.1,
      ih fun other hother => h other (List.mem_cons_of_mem _ hother)]
    rfl

theorem parseEnvLine_definitionLine (hkey : IsIdentifier key) (hraw : IsPlain raw) :
    parseEnvLine (definitionLine key raw) .between = (.between, some (key, raw)) := by
  have hsplit : splitAtFirst [equals] (definitionLine key raw) = some (key, raw) :=
    splitAtFirst_unit (not_mem_of_identifier hkey rfl) raw
  have hstart : ¬(definitionLine key raw = [] ∨ (definitionLine key raw).startsWith "#" ∨ (definitionLine key raw).startsWith "//") := by
    obtain ⟨unit, rest, rfl⟩ := List.exists_cons_of_ne_nil hkey.1
    have hunit := hkey.2 unit List.mem_cons_self
    have hsharp : unit ≠ 35 := by rintro rfl; cases hunit
    have hslash : unit ≠ 47 := by rintro rfl; cases hunit
    simp [definitionLine, Text.startsWith, Text.of, Text.units, hsharp.symm, hslash.symm]
  rw [parseEnvLine]
  simp only [trim_of_plain (isPlain_definitionLine hkey hraw), if_neg hstart, hsplit, trim_of_plain (isPlain_of_identifier hkey),
    trim_of_plain hraw]
  cases raw with
  | nil => rfl
  | cons unit rest => simp [(hraw unit List.mem_cons_self).2, beforeComment_of_plain hraw]

theorem splitOn_definitionLine (hkey : IsIdentifier key) (hraw : IsPlain raw) :
    (definitionLine key raw).splitOn lf = [definitionLine key raw] :=
  List.splitOn_eq_singleton fun hlf => (isPlain_definitionLine hkey hraw lf hlf).1 (by decide)

theorem recorded_definitionLine (hkey : IsIdentifier key) (hraw : IsPlain raw) : recorded (definitionLine key raw) = [(key, raw)] := by
  rw [recorded, splitOn_definitionLine hkey hraw, recordedLines, parseEnvLine_definitionLine hkey hraw]
  rfl

theorem recorded_cons_definitionLine (hkey : IsIdentifier key) (hraw : IsPlain raw) (content : Text) :
    recorded (definitionLine key raw ++ lf :: content) = (key, raw) :: recorded content := by
  rw [recorded, List.splitOn_append_cons_self, splitOn_definitionLine hkey hraw, List.singleton_append, recordedLines,
    parseEnvLine_definitionLine hkey hraw]
  rfl

/-! ## Values of one reference -/

theorem replaceAll_plainReference (h : 36 ∉ raw) : plainReference.replaceAll (substitute env scope) raw = pure raw := by
  refine plainReference.replaceAll_of_none fun s hs => ?_
  unfold plainReference
  simp only
  split
  · exact absurd (hs.subset List.mem_cons_self) h
  · rfl

theorem expandVariables_of_none (h : 36 ∉ raw) : expandVariables env scope raw = ⟨raw, false⟩ := by
  have hbraced : bracedReference.replaceAll (substitute env scope) raw = pure raw := by
    refine bracedReference.replaceAll_of_none fun s hs => ?_
    unfold bracedReference
    simp only
    split
    · exact absurd (hs.subset List.mem_cons_self) h
    · rfl
  rw [expandVariables, hbraced, pure_bind, replaceAll_plainReference h]
  rfl

theorem expandVariables_reference (hname : IsIdentifier name) (h : 36 ∉ (substitute env scope name).value) :
    expandVariables env scope (reference name) = substitute env scope name := by
  have hbraced : bracedReference.find (reference name) = some (name, []) := by
    have hsplit := splitAtFirst_unit (not_mem_of_identifier hname (show isIdentifierUnit 125 = false from rfl)) []
    simp [bracedReference, reference, hsplit, hname.1]
  rw [expandVariables, bracedReference.replaceAll_of_whole hbraced, Tracked.ext_iff]
  simp [replaceAll_plainReference h]

/-! ## Loading a file of one line -/

theorem loadFile_definitionLine (hread : readTextFile file = some (definitionLine key raw)) (hkey : IsIdentifier key) (hraw : IsPlain raw)
    (haccessor : host.prototype.accessor key = false) :
    loadFile readTextFile options state file =
      loadEntries options file state [(key, expandVariables state.env state.loaded.copy raw)] := by
  rw [loadFile, hread]
  simp only [parseEnvFile, recorded_definitionLine hkey hraw, List.foldl_cons, List.foldl_nil, record]
  rw [PlainObject.entries_assign_empty haccessor]

variable (hcase : host.caseInsensitive = false)

include hcase

theorem keepsApart_identifier : host.KeepsApart IsIdentifier := by
  intro name other stored hname hother hstored hsame
  rw [host.storedName_identifier hcase _ hname] at hstored
  rw [host.storedName_identifier hcase _ hother] at hsame
  exact Option.some.inj (hstored.trans hsame.symm)

theorem keysApart_of_identifiers {contents : List Text}
    (h : ∀ content ∈ contents, ∀ definition ∈ recorded content, IsIdentifier definition.1) : KeysApart host contents := by
  have hidentifier : ∀ name, DefinedIn contents name → IsIdentifier name := by
    rintro name ⟨content, hcontent, hname⟩
    obtain ⟨definition, hdefinition, rfl⟩ := List.mem_map.mp hname
    exact h content hcontent definition hdefinition
  exact fun name other stored hname hother => keepsApart_identifier hcase name other stored (hidentifier name hname) (hidentifier other hother)

theorem expandVariables_copy (scope : FileVars host) (raw : Text) : expandVariables env scope.copy raw = expandVariables env scope raw := by
  rw [expandVariables, expandVariables, show substitute env scope.copy = substitute env scope from funext (substitute_copy hcase scope)]

namespace Shows

theorem loadFile_kept (h : Shows options env IsIdentifier state loaded) (hread : readTextFile file = some (definitionLine key raw))
    (hkey : IsIdentifier key) (hraw : IsPlain raw) (haccessor : host.prototype.accessor key = false)
    (hkeeps : keepsFromStart options env key = true) : loadFile readTextFile options state file = state := by
  rw [loadFile_definitionLine hread hkey hraw haccessor, loadEntries, h.loadEntry_kept hcase hkey hkeeps]
  rfl

theorem loadFile_written (h : Shows options env IsIdentifier state loaded) (hread : readTextFile file = some (definitionLine key raw))
    (hkey : IsIdentifier key) (hraw : IsPlain raw) (haccessor : host.prototype.accessor key = false)
    (hkeeps : keepsFromStart options env key = false) {entry : ParsedEnvEntry}
    (hentry : expandVariables state.env state.loaded raw = entry) (hwritable : host.Writable entry.value) :
    Shows options env IsIdentifier (loadFile readTextFile options state file) (Function.update loaded key (some (file, entry))) := by
  have hrefuses : host.refuses key entry.value = false := by
    rw [refuses_of_writable hwritable]
    exact host.refusesName_identifier key hkey
  obtain ⟨state', hload, hshows⟩ := h.loadEntry_written hcase file hkey hkeeps hrefuses haccessor
  rw [loadFile_definitionLine hread hkey hraw haccessor, expandVariables_copy hcase, hentry, loadEntries, hload]
  exact hshows

theorem substitute_congr {state' : LoadState host} {loaded' : Loaded} (h : Shows options env IsIdentifier state loaded)
    (h' : Shows options env IsIdentifier state' loaded') (hname : loaded name = loaded' name)
    (hinherited : host.prototype.inherited name = some text) :
    substitute state.env state.loaded name = substitute state'.env state'.loaded name := by
  cases hloaded : loaded name with
  | some found => rw [h.substitute_of_loaded hcase hloaded, h'.substitute_of_loaded hcase (hname ▸ hloaded)]
  | none => rw [h.substitute_of_kept hcase hloaded, h'.substitute_of_kept hcase (hname ▸ hloaded), hinherited]

end Shows

omit hcase

/-! ## A variable to look at -/

/-- A name that stands for itself in every file, that objects inherit nothing under, and that is no index. -/
structure Probe (probe : Text) : Prop where
  identifier : IsIdentifier probe
  small : ¬HasSmallLetter probe
  capital : ∃ unit ∈ probe, 65 ≤ unit

variable {probe : Text}

theorem Probe.inherited (h : Probe probe) : host.prototype.inherited probe = none := by
  rw [Option.eq_none_iff_forall_ne_some]
  intro text htext
  exact h.small (host.inherited_name probe text htext).2

theorem Probe.accessor (h : Probe probe) : host.prototype.accessor probe = false := by
  rw [Bool.eq_false_iff]
  intro haccessor
  have hinherited := host.inherited_accessor probe haccessor
  rw [h.inherited] at hinherited
  cases hinherited

theorem Probe.arrayIndex (h : Probe probe) : arrayIndex probe = none := by
  rw [Veryfront.arrayIndex]
  refine if_neg fun hindex => ?_
  obtain ⟨unit, hunit, hcapital⟩ := h.capital
  rw [← hindex.2.2] at hunit
  have hdigit := (isDecimal_decimal _).2 unit hunit
  omega

include hcase in
theorem Probe.keepsFromStart (h : Probe probe) (hunset : probe ∉ env.values.keys) :
    keepsFromStart options env probe = false := by
  have hnone : getEnv env probe = none := by
    rw [getEnv, host.storedName_identifier hcase probe h.identifier, Option.bind_some, (OrdMap.get?_eq_none _ _).mpr hunset, h.inherited]
    simp
  rw [Bool.eq_false_iff]
  intro hkeeps
  obtain ⟨value, hvalue⟩ := getEnv_of_keeps hkeeps
  rw [hnone] at hvalue
  cases hvalue

theorem exists_probe (names : List Text) : ∃ probe, Probe probe ∧ probe ∉ names := by
  obtain ⟨n, hn⟩ := Infinite.exists_notMem_finset (names.map fun name => name.length - 1).toFinset
  refine ⟨List.replicate (n + 1) 66, ⟨⟨List.cons_ne_nil _ _, ?_⟩, ?_, 66, List.mem_cons_self, by decide⟩, fun hmem => hn ?_⟩
  · intro unit hunit
    rw [List.eq_of_mem_replicate hunit]
    rfl
  · rintro ⟨unit, hunit, hsmall⟩
    rw [List.eq_of_mem_replicate hunit] at hsmall
    omega
  · rw [List.mem_toFinset, List.mem_map]
    exact ⟨_, hmem, by simp⟩

/-! ## A directory of two files -/

def twoFiles (cwd base last : Text) : FileSystem := fun file =>
  if file = cwd ++ .of "/.env" then some base
  else if file = cwd ++ .of "/.env.local" then some last
  else none

section TwoFiles

variable {base last : Text}

@[simp] theorem twoFiles_env : twoFiles cwd base last (cwd ++ .of "/.env") = some base := if_pos rfl

theorem envFile_ne {suffix : Text} (h : suffix.length ≠ 5) : cwd ++ suffix ≠ cwd ++ .of "/.env" :=
  fun heq => h (congrArg List.length (List.append_cancel_left heq))

@[simp] theorem twoFiles_local : twoFiles cwd base last (cwd ++ .of "/.env.local") = some last := by
  rw [twoFiles, if_neg (envFile_ne (by decide)), if_pos rfl]

theorem eq_or_eq_of_mem_twoFiles {files : List Text} (h : content ∈ files.filterMap (twoFiles cwd base last)) :
    content = base ∨ content = last := by
  obtain ⟨file, -, hread⟩ := List.mem_filterMap.mp h
  rw [twoFiles] at hread
  split at hread
  · exact .inl (Option.some.inj hread).symm
  · split at hread
    · exact .inr (Option.some.inj hread).symm
    · cases hread

theorem primaryState_twoFiles {P Q : LoadState host → Prop}
    (hbase : P (loadFile (twoFiles cwd base last) (primaryLoad override) (.start env) (cwd ++ .of "/.env")))
    (hlast : ∀ state, P state → Q (loadFile (twoFiles cwd base last) (primaryLoad override) state (cwd ++ .of "/.env.local")))
    (hagain : ∀ state, Q state → P state) : Q (primaryState (twoFiles cwd base last) cwd override env) := by
  refine hlast _ ?_
  by_cases hlocal : cwd ++ .of "/.env." ++ envMode env = cwd ++ .of "/.env.local"
  · rw [hlocal]
    exact hagain _ (hlast _ hbase)
  · have hmode : cwd ++ .of "/.env." ++ envMode env ≠ cwd ++ .of "/.env" := by
      rw [List.append_assoc]
      exact envFile_ne (by rw [List.length_append, show (Text.of "/.env.").length = 6 from rfl]; omega)
    have hread : twoFiles cwd base last (cwd ++ .of "/.env." ++ envMode env) = none := by
      rw [twoFiles, if_neg hmode, if_neg hlocal]
    rw [loadFile, hread]
    exact hbase

end TwoFiles

end Veryfront.EnvLoader
