import Veryfront.Cache.SegmentRoundTrip
import Veryfront.Sync.GitIgnore

/-!
# Quoted lines

Git prints an argument as it is, or in quotes piece by piece. Either way it is read back.
-/

namespace Veryfront.Sync.GitIgnore

open Lib Cache

/-! ## What is printed -/

inductive Piece
  | character (point : Nat)
  | escape (letter byte : Nat)
  | octal (byte : Nat)

def isQuotedUnit (c : Nat) : Bool := c < 32 || c = 127 || c = 34 || c = 92

namespace Piece

def points : Piece → List Nat
  | character point => [point]
  | escape letter _ => [92, letter]
  | octal byte => [92, 48 + byte / 64, 48 + byte / 8 % 8, 48 + byte % 8]

def bytes : Piece → List Nat
  | character point => Utf8.encode point
  | escape _ byte => [byte]
  | octal byte => [byte]

def Valid : Piece → Prop
  | character point => Scalar point ∧ isQuotedUnit point = false
  | escape letter byte => (letter, byte) ∈ cStyleEscapes
  | octal byte => byte < 256

end Piece

inductive Printed (argument : Text) : Text → Prop
  | plain (h : ∀ c ∈ argument, isQuotedUnit c = false) : Printed argument argument
  | quoted {pieces : List Piece} (valid : ∀ piece ∈ pieces, piece.Valid) (bytes : pieces.flatMap Piece.bytes = textEncode argument) :
    Printed argument (34 :: (pieces.flatMap Piece.points).flatMap unitsOf ++ [34])

def printLines (lines : List Text) : Text := lines.flatMap (· ++ [lf])

/-! ## Pieces are read back -/

theorem octalByte_eq_none {a : Nat} (h : ¬(48 ≤ a ∧ a ≤ 51)) (rest : List Nat) : octalByte (a :: rest) = none := by
  have hfalse : (decide (48 ≤ a) && decide (a ≤ 51)) = false := by simpa using h
  cases rest with
  | nil => rfl
  | cons b rest =>
    cases rest with
    | nil => rfl
    | cons c rest => rw [octalByte, hfalse]; rfl

theorem octalByte_digits {byte : Nat} (h : byte < 256) (rest : List Nat) :
    octalByte ((48 + byte / 64) :: (48 + byte / 8 % 8) :: (48 + byte % 8) :: rest) = some byte := by
  rw [octalByte, if_pos]
  · exact congrArg some (by omega)
  · simp only [isOctalDigit, Bool.and_eq_true, decide_eq_true_eq]
    omega

theorem cStyleEscapes_lookup {letter byte : Nat} (h : (letter, byte) ∈ cStyleEscapes) :
    cStyleEscapes.lookup letter = some byte ∧ ¬(48 ≤ letter ∧ letter ≤ 51) ∧ Scalar letter ∧ 32 ≤ letter := by
  simp only [cStyleEscapes, List.mem_cons, Prod.mk.injEq, List.not_mem_nil, or_false] at h
  rcases h with ⟨rfl, rfl⟩ | ⟨rfl, rfl⟩ | ⟨rfl, rfl⟩ | ⟨rfl, rfl⟩ | ⟨rfl, rfl⟩ | ⟨rfl, rfl⟩ | ⟨rfl, rfl⟩ | ⟨rfl, rfl⟩ | ⟨rfl, rfl⟩ <;>
    exact ⟨rfl, by decide, ⟨by decide, by decide⟩, by decide⟩

theorem textEncode_unitsOf {point : Nat} (h : Scalar point) : textEncode (unitsOf point) = Utf8.encode point := by
  have hone : textEncode ([point].flatMap unitsOf) = _ := textEncode_points (List.forall_mem_singleton.mpr h)
  rwa [List.flatMap_singleton, List.flatMap_singleton] at hone

theorem unquotedBytes_piece {piece : Piece} (h : piece.Valid) (rest : List Nat) :
    unquotedBytes 0 (piece.points ++ rest) = piece.bytes ++ unquotedBytes 0 rest := by
  cases piece with
  | character point =>
    have hne : point ≠ 92 := by
      rintro rfl
      exact absurd h.2 (by decide)
    rw [Piece.points, List.singleton_append, unquotedBytes, if_pos hne, textEncode_unitsOf h.1, Piece.bytes]
  | escape letter byte =>
    obtain ⟨hlookup, hdigit, -⟩ := cStyleEscapes_lookup h
    rw [Piece.points, List.cons_append, List.singleton_append, unquotedBytes, if_neg (by decide), octalByte_eq_none hdigit]
    simp only [List.head?_cons, Option.bind_some, hlookup, Piece.bytes, List.singleton_append, unquotedBytes]
  | octal byte =>
    rw [Piece.points, List.cons_append, List.cons_append, List.cons_append, List.singleton_append, unquotedBytes,
      if_neg (by decide), octalByte_digits h]
    rfl

theorem unquotedBytes_pieces {pieces : List Piece} (h : ∀ piece ∈ pieces, piece.Valid) :
    unquotedBytes 0 (pieces.flatMap Piece.points) = pieces.flatMap Piece.bytes := by
  induction pieces with
  | nil => rfl
  | cons piece pieces ih =>
    rw [List.flatMap_cons, unquotedBytes_piece (h piece List.mem_cons_self), ih fun p hp => h p (List.mem_cons_of_mem _ hp),
      List.flatMap_cons]

theorem Piece.Valid.points_scalar {piece : Piece} (h : piece.Valid) : ∀ point ∈ piece.points, Scalar point ∧ 32 ≤ point := by
  have hascii {c : Nat} (hlow : 32 ≤ c) (hhigh : c < 128) : Scalar c ∧ 32 ≤ c :=
    ⟨⟨by omega, by rw [isSurrogate_iff]; omega⟩, hlow⟩
  cases piece with
  | character point =>
    intro p hp
    obtain rfl := List.mem_singleton.mp hp
    refine ⟨h.1, ?_⟩
    have hquoted := h.2
    simp only [isQuotedUnit, Bool.or_eq_false_iff, decide_eq_false_iff_not] at hquoted
    omega
  | escape letter byte =>
    obtain ⟨-, -, hletter, hlow⟩ := cStyleEscapes_lookup h
    exact List.forall_mem_cons.mpr ⟨hascii (by decide) (by decide), List.forall_mem_singleton.mpr ⟨hletter, hlow⟩⟩
  | octal byte =>
    have hbyte : byte < 256 := h
    intro p hp
    simp only [Piece.points, List.mem_cons, List.not_mem_nil, or_false] at hp
    exact hascii (by omega) (by omega)

theorem points_scalar {pieces : List Piece} (h : ∀ piece ∈ pieces, piece.Valid) :
    ∀ point ∈ pieces.flatMap Piece.points, Scalar point ∧ 32 ≤ point := by
  intro point hp
  obtain ⟨piece, hpiece, hpoint⟩ := List.mem_flatMap.mp hp
  exact (h piece hpiece).points_scalar point hpoint

/-! ## Lines are read back -/

/-- The text of an argument: no surrogate stands alone. -/
structure IsText (t : Text) : Prop where
  wellFormed : WellFormed t
  units : ∀ unit ∈ t, unit < 0x10000

theorem IsText.points {t : Text} (h : IsText t) :
    (∀ point ∈ codePoints t, Scalar point) ∧ t = (codePoints t).flatMap unitsOf :=
  ⟨fun point hp => ⟨codePoints_lt h.units point hp, Bool.eq_false_iff.mp (h.wellFormed point hp)⟩,
    (flatMap_unitsOf_codePoints h.units).symm⟩

theorem decode_textEncode {t : Text} (h : IsText t) (hhead : t.head? = some 46) :
    (Utf8.decode (textEncode t)).flatMap unitsOf = t := by
  obtain ⟨hscalar, ht⟩ := h.points
  have hencode : textEncode t = (codePoints t).flatMap Utf8.encode := (congrArg textEncode ht).trans (textEncode_points hscalar)
  have hmark : (textEncode t).head? ≠ some 0xEF := by
    obtain ⟨rest, rfl⟩ := List.head?_eq_some_iff.mp hhead
    rw [hencode, codePoints_cons (by decide), List.flatMap_cons, show Utf8.encode 46 = [46] from rfl, List.singleton_append,
      List.head?_cons]
    decide
  rw [hencode, Utf8.decode_flatMap hscalar (hencode ▸ hmark), ← ht]

theorem unquoteGitPath_printed {argument line : Text} (h : Printed argument line) (htext : IsText argument)
    (hhead : argument.head? = some 46) : unquoteGitPath line = argument := by
  cases h with
  | plain => exact if_pos (.inr (.inl (by rw [hhead]; decide)))
  | @quoted pieces valid hbytes =>
    have hline : ¬((34 :: (pieces.flatMap Piece.points).flatMap unitsOf ++ [34]).length < 2 ∨
        (34 :: (pieces.flatMap Piece.points).flatMap unitsOf ++ [34]).head? ≠ some 34 ∨
        (34 :: (pieces.flatMap Piece.points).flatMap unitsOf ++ [34]).getLast? ≠ some 34) := by
      rw [List.getLast?_append_of_ne_nil _ (List.cons_ne_nil _ _)]
      simp
    rw [unquoteGitPath, if_neg hline, List.cons_append, List.tail_cons, List.dropLast_concat,
      codePoints_flatMap_unitsOf fun p hp => (points_scalar valid p hp).1, unquotedBytes_pieces valid, hbytes]
    exact decode_textEncode htext hhead

theorem mem_unitsOf {point : Nat} (h : 32 ≤ point) : ∀ unit ∈ unitsOf point, 32 ≤ unit := by
  intro unit hunit
  rw [unitsOf] at hunit
  split at hunit
  · exact List.mem_singleton.mp hunit ▸ h
  · simp only [List.mem_cons, List.not_mem_nil, or_false] at hunit
    omega

theorem lf_notMem_of_printed {argument line : Text} (h : Printed argument line) : lf ∉ line := by
  cases h with
  | plain h => exact fun hlf => absurd (h lf hlf) (by decide)
  | quoted valid _ =>
    intro hlf
    rw [List.mem_append, List.mem_cons, List.mem_singleton] at hlf
    rcases hlf with (hlf | hlf) | hlf
    · cases hlf
    · obtain ⟨point, hpoint, hunit⟩ := List.mem_flatMap.mp hlf
      exact absurd (mem_unitsOf (points_scalar valid point hpoint).2 lf hunit) (by decide)
    · cases hlf

/-! ## The output is read back -/

theorem splitOn_printLines {lines : List Text} (h : ∀ line ∈ lines, lf ∉ line) :
    (printLines lines).splitOn lf = lines ++ [[]] := by
  have hlines : printLines lines = [lf].intercalate (lines ++ [[]]) := by
    clear h
    induction lines with
    | nil => rfl
    | cons line lines ih =>
      rw [List.cons_append, List.intercalate_cons_of_ne_nil (by simp), ← ih, printLines, List.flatMap_cons]
      rfl
  rw [hlines, List.splitOn_intercalate _ _ (by simp)]
  intro line hline
  rcases List.mem_append.mp hline with hline | hline
  · exact h line hline
  · rw [List.mem_singleton.mp hline]
    exact List.not_mem_nil

theorem parseCheckIgnoreOutput_printed {outputPrefix : Text} (hbegin : outputPrefix.head? = some 46) {paths lines : List Text}
    (htext : ∀ path ∈ paths, IsText (outputPrefix ++ path))
    (hprinted : List.Forall₂ Printed (paths.map (outputPrefix ++ ·)) lines) :
    parseCheckIgnoreOutput (printLines lines) outputPrefix = paths := by
  have hread : ∀ {paths lines : List Text}, (∀ path ∈ paths, IsText (outputPrefix ++ path)) →
      List.Forall₂ Printed (paths.map (outputPrefix ++ ·)) lines → (∀ line ∈ lines, lf ∉ line) ∧
        (lines ++ [[]]).filterMap (fun line =>
          if line = [] then none
          else if outputPrefix.isPrefixOf (unquoteGitPath line) then some ((unquoteGitPath line).drop outputPrefix.length)
          else none) = paths := by
    intro paths
    induction paths with
    | nil =>
      intro lines _ h
      cases h
      exact ⟨by simp, rfl⟩
    | cons path paths ih =>
      intro lines htext h
      obtain ⟨hpath, hpaths⟩ := List.forall_mem_cons.mp htext
      cases h with
      | @cons _ line _ lines hfirst hrest =>
        obtain ⟨hno, hread⟩ := ih hpaths hrest
        have hhead : (outputPrefix ++ path).head? = some 46 := by
          obtain ⟨rest, rfl⟩ := List.head?_eq_some_iff.mp hbegin
          rfl
        have hline : unquoteGitPath line = outputPrefix ++ path := unquoteGitPath_printed hfirst hpath hhead
        have hne : line ≠ [] := by
          rintro rfl
          rw [← hline] at hhead
          cases hhead
        refine ⟨List.forall_mem_cons.mpr ⟨lf_notMem_of_printed hfirst, hno⟩, ?_⟩
        rw [List.cons_append, List.filterMap_cons_some, hread]
        rw [if_neg hne, hline, if_pos (by simp), List.drop_left]
  obtain ⟨hno, hresult⟩ := hread htext hprinted
  rw [parseCheckIgnoreOutput, splitOn_printLines hno, hresult]

end Veryfront.Sync.GitIgnore
