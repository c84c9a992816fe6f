import Veryfront.Provider.ProviderSseChunks

/-!
# Streams of lines

The blocks of an LF or CR stream have the lines of its events. In a CRLF stream no block has more than one line.
-/

namespace Veryfront.Provider

open Lib

/-! ## Blocks of an LF or CR stream -/

theorem intercalate_cons_cons (mark l m : Text) (rest : List Text) :
    mark.intercalate (l :: m :: rest) = l ++ (mark ++ mark.intercalate (m :: rest)) := by
  rw [List.intercalate_cons_cons, List.append_assoc]

variable {lines : List Text}

theorem onlyNewline_intercalate {nl : Nat} (h : ∀ line ∈ lines, Plain line) :
    OnlyNewline nl (([nl] : Text).intercalate lines) := by
  induction lines with
  | nil => simp [OnlyNewline]
  | cons l rest ih =>
    have hl : ∀ c ∈ l, isNewline c = true → c = nl := by
      intro c hc hnew
      rw [h l (List.mem_cons_self ..) c hc] at hnew
      cases hnew
    cases rest with
    | nil => rwa [List.intercalate_singleton]
    | cons m rest =>
      rw [intercalate_cons_cons]
      intro c hc
      simp only [List.mem_append, List.mem_singleton] at hc
      obtain hc | rfl | hc := hc
      · exact hl c hc
      · exact fun _ => rfl
      · exact ih (fun line hline => h line (List.mem_cons_of_mem l hline)) c hc

theorem contents_intercalate {mark : Text} (hne : mark ≠ []) (hmark : ∀ c ∈ mark, isNewline c = true)
    (h : ∀ line ∈ lines, Plain line) : contents (mark.intercalate lines) = lines.filter (· ≠ []) := by
  induction lines with
  | nil => rfl
  | cons l rest ih =>
    have hl := h l (List.mem_cons_self ..)
    cases rest with
    | nil => rw [List.intercalate_singleton, contents_of_plain hl]
    | cons m rest =>
      rw [intercalate_cons_cons, contents_append_mark l hne hmark, ih fun line hline => h line (List.mem_cons_of_mem l hline),
        contents_of_plain hl, ← List.filter_append]
      rfl

/-- The parts of the two lists agree once the empty ones are left out. -/
def SameParts (a b : List (List Text)) : Prop := a.filter (· ≠ []) = b.filter (· ≠ [])

/-- The first parts agree, and so do the others once the empty ones are left out. -/
def SameHead (a b : List (List Text)) : Prop := ∃ part rest rest', a = part :: rest ∧ b = part :: rest' ∧ SameParts rest rest'

theorem SameHead.sameParts {a b : List (List Text)} (h : SameHead a b) : SameParts a b := by
  obtain ⟨part, rest, rest', rfl, rfl, hrest⟩ := h
  unfold SameParts at *
  rw [List.filter_cons, List.filter_cons, hrest]

theorem contents_line {l : Text} (h : Plain l) : contents l = if l = [] then [] else [l] := by
  rw [contents_of_plain h]
  split <;> simp_all

theorem splitOn_blank (rest : List Text) : ([] :: rest).splitOn ([] : Text) = [] :: rest.splitOn [] := by
  rw [List.splitOn_cons_eq_if_modifyHead]
  rfl

theorem splitOn_line {l : Text} (h : l ≠ []) (rest : List Text) :
    (l :: rest).splitOn [] = (rest.splitOn []).modifyHead (l :: ·) := by
  rw [List.splitOn_cons_eq_if_modifyHead, if_neg (by simpa using h)]

theorem split_line {nl : Nat} {l t : Text} (hl : Plain l) (ht : ∀ c ∈ t.head?, isNewline c = false) :
    blockDelimiter.split (l ++ ([nl] ++ t)) = (blockDelimiter.split t).modifyHead (l ++ [nl] ++ ·) := by
  rw [← List.append_assoc]
  refine blockDelimiter.split_append (skipsOver_of_noPair ?_)
  rw [List.append_assoc]
  refine noPair_of_plain hl _ ?_
  rintro x c d y heq hc
  cases t with
  | nil =>
    have hlen := congrArg List.length heq
    simp only [List.take_nil, List.append_nil, List.length_append, List.length_cons, List.length_nil] at hlen
    omega
  | cons e t =>
    have hlen := congrArg List.length heq
    simp only [List.take_succ_cons, List.take_zero, List.cons_append, List.nil_append, List.length_cons,
      List.length_append, List.length_nil] at hlen
    obtain rfl : x = [] := List.length_eq_zero_iff.mp (by omega)
    obtain ⟨-, hrest⟩ := List.cons.inj heq
    obtain ⟨rfl, -⟩ := List.cons.inj hrest
    exact ht e rfl

theorem split_blank_line {nl : Nat} (hnl : isNewline nl = true) {l t : Text} (hl : Plain l) (ht : OnlyNewline nl t) :
    blockDelimiter.split (l ++ ([nl] ++ ([nl] ++ t))) = l :: blockDelimiter.split t := by
  refine blockDelimiter.split_cut (skipsOver_of_noPair ?_) (find_pair hnl ht)
  exact noPair_of_plain hl _ (noPair_short (by simp))

theorem head?_intercalate {mark m : Text} (hm : Plain m) (hne : m ≠ []) (rest : List Text) :
    ∀ c ∈ (mark.intercalate (m :: rest)).head?, isNewline c = false := by
  obtain ⟨c, m, rfl⟩ := List.exists_cons_of_ne_nil hne
  have hhead : (mark.intercalate ((c :: m) :: rest)).head? = some c := by
    cases rest with
    | nil => rw [List.intercalate_singleton]; rfl
    | cons n rest => rw [intercalate_cons_cons]; rfl
  intro d hd
  rw [hhead] at hd
  obtain rfl := Option.some.inj hd
  exact hm c (List.mem_cons_self ..)

theorem contents_blocks {nl : Nat} (hnl : isNewline nl = true) : ∀ lines : List Text, (∀ line ∈ lines, Plain line) →
    SameParts ((blockDelimiter.split (([nl] : Text).intercalate lines)).map contents) (sseEvents lines) ∧
      ∀ m rest, lines = m :: rest → m ≠ [] →
        SameHead ((blockDelimiter.split (([nl] : Text).intercalate lines)).map contents) (sseEvents lines)
  | [], _ => ⟨rfl, fun _ _ h => nomatch h⟩
  | [l], h => by
    have hl := h l (List.mem_cons_self ..)
    have hsplit : blockDelimiter.split l = [l] :=
      blockDelimiter.split_of_skipsOver (skipsOver_of_noPair (noPair_of_plain hl _ (noPair_short (by simp))))
    rw [List.intercalate_singleton, hsplit, List.map_singleton, contents_line hl, sseEvents]
    by_cases hne : l = []
    · subst hne
      exact ⟨rfl, fun m rest hm hm' => absurd (List.cons.inj hm).1.symm hm'⟩
    · rw [splitOn_line hne, if_neg hne]
      have hhead : SameHead [[l]] [[l]] := ⟨[l], [], [], rfl, rfl, rfl⟩
      exact ⟨hhead.sameParts, fun _ _ _ _ => hhead⟩
  | l :: [] :: m :: rest, h => by
    have hl := h l (List.mem_cons_self ..)
    have hrest : ∀ line ∈ m :: rest, Plain line := fun line hline => h line (by simp_all)
    obtain ⟨hparts, -⟩ := contents_blocks hnl (m :: rest) hrest
    rw [intercalate_cons_cons, intercalate_cons_cons, List.nil_append,
      split_blank_line hnl hl (onlyNewline_intercalate hrest), List.map_cons, contents_line hl, sseEvents]
    by_cases hne : l = []
    · subst hne
      rw [splitOn_blank, splitOn_blank]
      exact ⟨hparts, fun n rest' hn hn' => absurd (List.cons.inj hn).1.symm hn'⟩
    · rw [splitOn_line hne, splitOn_blank, if_neg hne]
      have hhead : SameHead ([l] :: (blockDelimiter.split (([nl] : Text).intercalate (m :: rest))).map contents)
          ([l] :: (m :: rest).splitOn []) := ⟨[l], _, _, rfl, rfl, hparts⟩
      exact ⟨hhead.sameParts, fun _ _ _ _ => hhead⟩
  | [l, []], h => by
    have hl := h l (List.mem_cons_self ..)
    have hsplit : blockDelimiter.split (([nl] : Text).intercalate [l, []]) = [l ++ [nl]] := by
      rw [intercalate_cons_cons, List.intercalate_singleton, split_line hl (by simp)]
      simp
    rw [hsplit, List.map_singleton, contents_append_newline l [] hnl, contents_line hl, sseEvents]
    by_cases hne : l = []
    · subst hne
      exact ⟨rfl, fun m rest hm hm' => absurd (List.cons.inj hm).1.symm hm'⟩
    · rw [splitOn_line hne, if_neg hne]
      have hhead : SameHead [[l]] [[l], []] := ⟨[l], [], [[]], rfl, rfl, rfl⟩
      exact ⟨hhead.sameParts, fun _ _ _ _ => hhead⟩
  | l :: (a :: m) :: rest, h => by
    have hl := h l (List.mem_cons_self ..)
    have hrest : ∀ line ∈ (a :: m) :: rest, Plain line := fun line hline => h line (List.mem_cons_of_mem l hline)
    have hm := hrest _ (List.mem_cons_self ..)
    obtain ⟨-, hhead⟩ := contents_blocks hnl ((a :: m) :: rest) hrest
    obtain ⟨part, parts, parts', hleft, hright, hparts⟩ := hhead _ _ rfl (List.cons_ne_nil a m)
    obtain ⟨block, blocks, hblocks⟩ := List.exists_cons_of_ne_nil
      (blockDelimiter.split_ne_nil (([nl] : Text).intercalate ((a :: m) :: rest)))
    rw [hblocks, List.map_cons] at hleft
    obtain ⟨rfl, rfl⟩ := List.cons.inj hleft
    rw [sseEvents] at hright
    rw [intercalate_cons_cons, split_line hl (head?_intercalate hm (List.cons_ne_nil a m) rest), hblocks,
      List.modifyHead_cons, List.map_cons, List.append_assoc]
    rw [show contents (l ++ ([nl] ++ block)) = contents l ++ contents block from contents_append_newline l block hnl,
      contents_line hl, sseEvents]
    by_cases hne : l = []
    · subst hne
      rw [splitOn_blank, hright]
      have hsame : SameHead (contents block :: blocks.map contents) (contents block :: parts') :=
        ⟨_, _, _, rfl, rfl, hparts⟩
      exact ⟨hsame.sameParts, fun n rest' hn hn' => absurd (List.cons.inj hn).1.symm hn'⟩
    · rw [splitOn_line hne, hright, if_neg hne]
      have hsame : SameHead ((l :: contents block) :: blocks.map contents) ((l :: contents block) :: parts') :=
        ⟨_, _, _, rfl, rfl, hparts⟩
      exact ⟨hsame.sameParts, fun _ _ _ _ => hsame⟩

theorem filterMap_payload?_congr {a b : List (List Text)} (h : SameParts a b) :
    a.filterMap payload? = b.filterMap payload? := by
  have hfilter : ∀ c : List (List Text), c.filterMap payload? = (c.filter (· ≠ [])).filterMap payload? := by
    intro c
    rw [List.filterMap_filter]
    refine List.filterMap_congr fun lines _ => ?_
    split
    · rfl
    · rename_i hnil
      obtain rfl : lines = [] := by simpa using hnil
      rfl
  rw [hfilter a, h, ← hfilter b]

theorem payloads_split {nl : Nat} (hnl : isNewline nl = true) (h : ∀ line ∈ lines, Plain line) :
    payloads (blockDelimiter.split (([nl] : Text).intercalate lines)) = (sseEvents lines).filterMap payload? := by
  rw [← filterMap_payload?_congr (contents_blocks hnl lines h).1, List.filterMap_map]
  rfl

/-! ## Blocks of a CRLF stream -/

/-- A part of a CRLF text: only its last CR may lack its LF, and only its first LF may lack its CR. -/
def CrlfPart (t : Text) : Prop :=
  (∀ x y, t = x ++ cr :: y → y = [] ∨ ∃ z, y = lf :: z) ∧ ∀ x y, t = x ++ lf :: y → x = [] ∨ ∃ z, x = z ++ [cr]

theorem CrlfPart.within {t s : Text} (h : CrlfPart t) (hs : s <:+: t) : CrlfPart s := by
  obtain ⟨a, b, rfl⟩ := hs
  refine ⟨fun x y hxy => ?_, fun x y hxy => ?_⟩
  · subst hxy
    obtain hnil | ⟨z, hz⟩ := h.1 (a ++ x) (y ++ b) (by simp)
    · exact Or.inl (List.append_eq_nil_iff.mp hnil).1
    · cases y with
      | nil => exact Or.inl rfl
      | cons c y => exact Or.inr ⟨y, by rw [(List.cons.inj hz).1]⟩
  · subst hxy
    obtain hnil | ⟨z, hz⟩ := h.2 (a ++ x) (y ++ b) (by simp)
    · exact Or.inl (List.append_eq_nil_iff.mp hnil).2
    · obtain rfl | ⟨x, c, rfl⟩ := List.eq_nil_or_concat x
      · exact Or.inl rfl
      · rw [List.concat_eq_append, ← List.append_assoc] at hz
        obtain ⟨-, hc⟩ := List.append_inj' hz rfl
        exact Or.inr ⟨x, by rw [List.concat_eq_append, hc]⟩

/-- Every CR has its LF, and every LF has its CR. -/
def CrlfText (t : Text) : Prop :=
  (∀ x y, t = x ++ cr :: y → ∃ z, y = lf :: z) ∧ ∀ x y, t = x ++ lf :: y → ∃ z, x = z ++ [cr]

theorem CrlfText.part {t : Text} (h : CrlfText t) : CrlfPart t :=
  ⟨fun x y hxy => Or.inr (h.1 x y hxy), fun x y hxy => Or.inr (h.2 x y hxy)⟩

theorem crlfText_plain {l : Text} (h : Plain l) : CrlfText l := by
  refine ⟨fun x y hxy => ?_, fun x y hxy => ?_⟩
  · exact absurd (h cr (by simp [hxy])) (by decide)
  · exact absurd (h lf (by simp [hxy])) (by decide)

theorem CrlfText.line {l t : Text} (hl : Plain l) (ht : CrlfText t) : CrlfText (l ++ cr :: lf :: t) := by
  obtain ⟨hcr, hlf⟩ := ht
  refine ⟨fun x y hxy => ?_, fun x y hxy => ?_⟩
  · obtain ⟨z, rfl, hz⟩ | ⟨z, rfl, hz⟩ := List.append_eq_append_iff.mp hxy
    · match z, hz with
      | [], hz => exact ⟨t, (List.cons.inj hz).2.symm⟩
      | [_], hz => exact absurd (List.cons.inj (List.cons.inj hz).2).1 (by decide)
      | _ :: _ :: z, hz => exact hcr z y (List.cons.inj (List.cons.inj hz).2).2
    · match z, hz with
      | [], hz => exact ⟨t, (List.cons.inj hz).2⟩
      | c :: z, hz => exact absurd (hl c (by simp)) (by rw [← (List.cons.inj hz).1]; decide)
  · obtain ⟨z, rfl, hz⟩ | ⟨z, rfl, hz⟩ := List.append_eq_append_iff.mp hxy
    · match z, hz with
      | [], hz => exact absurd (List.cons.inj hz).1 (by decide)
      | [_], hz => exact ⟨l, by rw [← (List.cons.inj hz).1]⟩
      | c :: d :: z, hz =>
        obtain ⟨w, rfl⟩ := hlf z y (List.cons.inj (List.cons.inj hz).2).2
        exact ⟨l ++ c :: d :: w, by simp⟩
    · match z, hz with
      | [], hz => exact absurd (List.cons.inj hz).1 (by decide)
      | c :: z, hz => exact absurd (hl c (by simp)) (by rw [← (List.cons.inj hz).1]; decide)

theorem crlfText_intercalate (h : ∀ line ∈ lines, Plain line) :
    CrlfText (([cr, lf] : Text).intercalate lines) := by
  induction lines with
  | nil => exact crlfText_plain (fun _ hc => nomatch hc)
  | cons l rest ih =>
    have hl := h l (List.mem_cons_self ..)
    cases rest with
    | nil =>
      rw [List.intercalate_singleton]
      exact crlfText_plain hl
    | cons m rest =>
      rw [intercalate_cons_cons]
      exact (ih fun line hline => h line (List.mem_cons_of_mem l hline)).line hl

theorem contents_crlfPart {t : Text} (h : CrlfPart t) (hpair : NoPair t) : (contents t).length ≤ 1 := by
  have hplain : ∀ u : Text, Plain u → (contents u).length ≤ 1 := by
    intro u hu
    rw [contents_of_plain hu]
    exact List.length_filter_le _ _
  have hcr : ∀ x y, t = x ++ cr :: y → y = [] := by
    intro x y hxy
    obtain hnil | ⟨z, rfl⟩ := h.1 x y hxy
    · exact hnil
    · exact absurd (hpair x cr lf z hxy rfl) (by decide)
  have hlf : ∀ x y, t = x ++ lf :: y → x = [] := by
    intro x y hxy
    obtain hnil | ⟨z, rfl⟩ := h.2 x y hxy
    · exact hnil
    · exact absurd (hpair z cr lf y (by simp [hxy]) rfl) (by decide)
  -- What follows a first LF has no other, and its only CR is its last unit.
  have hbehind : ∀ v u, t = v ++ u → lf ∉ u → (contents u).length ≤ 1 := by
    intro v u hvu hno
    by_cases hmem : cr ∈ u
    · obtain ⟨x, y, rfl, hx⟩ := List.eq_append_cons_of_mem hmem
      obtain rfl : y = [] := hcr (v ++ x) y (by simp [hvu])
      rw [contents_append_newline x [] rfl, show contents [] = [] from rfl, List.append_nil]
      refine hplain x fun c hc => Bool.eq_false_iff.mpr fun hnew => ?_
      obtain rfl | rfl := isNewline_iff.mp hnew
      · exact hno (List.mem_append_left _ hc)
      · exact hx hc
    · refine hplain u fun c hc => Bool.eq_false_iff.mpr fun hnew => ?_
      obtain rfl | rfl := isNewline_iff.mp hnew
      · exact hno hc
      · exact hmem hc
  by_cases hmem : lf ∈ t
  · obtain ⟨x, y, heq⟩ := List.append_of_mem hmem
    obtain rfl := hlf x y heq
    obtain rfl : t = lf :: y := heq
    rw [contents_newline_cons y rfl]
    refine hbehind [lf] y rfl fun hy => ?_
    obtain ⟨x, z, rfl⟩ := List.append_of_mem hy
    exact List.cons_ne_nil _ _ (hlf (lf :: x) z rfl)
  · exact hbehind [] t rfl hmem

theorem readBlocks_crlf (chunks : List Text) : ∀ r, blockDelimiter.SkipsOver r [] → CrlfPart (r ++ chunks.flatten) →
    (∀ block ∈ readBlocks r chunks, (contents block).length ≤ 1) ∧
      (readBlocks r chunks).flatMap contents = contents (r ++ chunks.flatten) := by
  induction chunks with
  | nil =>
    intro r hskip hpart
    rw [List.flatten_nil, List.append_nil] at hpart ⊢
    obtain ⟨block, hblock, hcontents⟩ := complete_final hskip
    have hblocks : readBlocks r [] = [block] := hblock
    rw [hblocks, List.flatMap_singleton, hcontents]
    refine ⟨fun b hb => ?_, rfl⟩
    rw [List.mem_singleton.mp hb, hcontents]
    exact contents_crlfPart hpart (noPair_of_skipsOver hskip)
  | cons chunk chunks ih =>
    intro r hskip hpart
    rw [List.flatten_cons, ← List.append_assoc] at hpart ⊢
    have hrest : CrlfPart (blockDelimiter.remainder (r ++ chunk) ++ chunks.flatten) :=
      hpart.within (List.suffix_append_self_iff.mpr (blockDelimiter.remainder_suffix _)).isInfix
    obtain ⟨hone, hall⟩ := ih _ (blockDelimiter.skipsOver_remainder _) hrest
    rw [readBlocks_cons, List.flatMap_append, hall, ← contents_append]
    refine ⟨fun block hblock => ?_, rfl⟩
    obtain hblock | hblock := List.mem_append.mp hblock
    · obtain ⟨hin, s, hs⟩ := blockDelimiter.mem_complete hblock
      exact contents_crlfPart (hpart.within (hin.trans (List.prefix_append _ _).isInfix)) (noPair_of_skipsOver hs)
    · exact hone block hblock

theorem payloads_of_one_line {blocks : List Text} (h : ∀ block ∈ blocks, (contents block).length ≤ 1) :
    payloads blocks = (blocks.flatMap contents).filterMap fun line => payload? [line] := by
  induction blocks with
  | nil => rfl
  | cons block blocks ih =>
    have hone := h block (List.mem_cons_self ..)
    rw [payloads, List.filterMap_cons, ← payloads, ih fun b hb => h b (List.mem_cons_of_mem block hb), List.flatMap_cons,
      List.filterMap_append]
    rcases hlines : contents block with _ | ⟨line, lines⟩
    · rfl
    · rw [hlines, List.length_cons] at hone
      obtain rfl := List.eq_nil_of_length_eq_zero (Nat.le_zero.mp (Nat.le_of_succ_le_succ hone))
      rw [List.filterMap_cons]
      cases payload? [line] <;> rfl

/-! ## Events and their data lines -/

theorem flatten_sseEvents (lines : List Text) : (sseEvents lines).flatten = lines.filter (· ≠ []) := by
  unfold sseEvents
  induction lines with
  | nil => rfl
  | cons l rest ih =>
    by_cases hne : l = []
    · subst hne
      rw [splitOn_blank, List.flatten_cons, List.nil_append, ih]
      rfl
    · obtain ⟨event, events, hevents⟩ := List.exists_cons_of_ne_nil (List.splitOn_ne_nil ([] : Text) rest)
      rw [hevents] at ih
      rw [splitOn_line hne, hevents, List.modifyHead_cons, List.flatten_cons, List.cons_append, ← List.flatten_cons, ih,
        List.filter_cons_of_pos (by simpa using hne)]

theorem dataLines_cons (l : Text) (rest : List Text) : dataLines (l :: rest) = dataLines [l] ++ dataLines rest := by
  rw [dataLines, List.filter_cons, dataLines, List.filter_cons]
  split <;> rfl

theorem payload?_of_dataLines {lines' : List Text} (h : dataLines lines = dataLines lines') :
    payload? lines = payload? lines' := by
  rw [payload?, payload?, h]

def linePayloads (lines : List Text) : List Text := lines.filterMap fun line => payload? [line]

theorem payload?_line (l : Text) : (dataLines [l] = [] ∧ payload? [l] = none) ∨
    ∃ data payload, dataLines [l] = [data] ∧ payload? [l] = some payload := by
  rw [payload?, dataLines, List.filter_cons]
  split
  · exact Or.inr ⟨_, _, rfl, rfl⟩
  · exact Or.inl ⟨rfl, rfl⟩

theorem length_linePayloads (lines : List Text) : (linePayloads lines).length = (dataLines lines).length := by
  induction lines with
  | nil => rfl
  | cons l rest ih =>
    rw [dataLines_cons, List.length_append, ← ih, linePayloads, List.filterMap_cons, ← linePayloads]
    obtain ⟨hnil, hnone⟩ | ⟨data, payload, hdata, hsome⟩ := payload?_line l
    · rw [hnil, hnone, List.length_nil, Nat.zero_add]
    · rw [hdata, hsome, List.length_cons, List.length_singleton, Nat.add_comm]

theorem linePayloads_of_le_one (h : (dataLines lines).length ≤ 1) :
    linePayloads lines = (payload? lines).toList := by
  induction lines with
  | nil => rfl
  | cons l rest ih =>
    rw [dataLines_cons, List.length_append] at h
    obtain ⟨hnil, hnone⟩ | ⟨data, payload, hdata, hsome⟩ := payload?_line l
    · have hrest : payload? (l :: rest) = payload? rest := payload?_of_dataLines (by rw [dataLines_cons, hnil, List.nil_append])
      rw [hnil, List.length_nil, Nat.zero_add] at h
      rw [linePayloads, List.filterMap_cons, hnone, ← linePayloads, ih h, hrest]
    · rw [hdata, List.length_singleton] at h
      have hrest : dataLines rest = [] := List.length_eq_zero_iff.mp (by omega)
      have hall : payload? (l :: rest) = payload? [l] := payload?_of_dataLines (by rw [dataLines_cons, hrest, List.append_nil])
      have hnone : linePayloads rest = [] := List.length_eq_zero_iff.mp (by rw [length_linePayloads, hrest]; rfl)
      rw [linePayloads, List.filterMap_cons, hsome, ← linePayloads, hnone, hall, hsome]
      rfl

theorem length_payload? (lines : List Text) : (payload? lines).toList.length ≤ (dataLines lines).length ∧
    (2 ≤ (dataLines lines).length → (payload? lines).toList.length < (dataLines lines).length) := by
  unfold payload?
  split
  · rename_i hnil
    exact ⟨Nat.zero_le _, fun h => by rw [hnil] at h; cases h⟩
  · rename_i hne
    exact ⟨List.length_pos_iff.mpr hne, id⟩

theorem payloads_events (events : List (List Text)) :
    ((∀ event ∈ events, (dataLines event).length ≤ 1) → events.filterMap payload? = linePayloads events.flatten) ∧
      (events.filterMap payload?).length ≤ (linePayloads events.flatten).length ∧
      ((∃ event ∈ events, 2 ≤ (dataLines event).length) →
        (events.filterMap payload?).length < (linePayloads events.flatten).length) := by
  induction events with
  | nil => exact ⟨fun _ => rfl, le_rfl, fun ⟨event, hevent, _⟩ => nomatch hevent⟩
  | cons event events ih =>
    obtain ⟨hsame, hle, hlt⟩ := ih
    have hfilter : (event :: events).filterMap payload? = (payload? event).toList ++ events.filterMap payload? := by
      rw [List.filterMap_cons]
      cases payload? event <;> rfl
    have hflat : linePayloads (event :: events).flatten = linePayloads event ++ linePayloads events.flatten := by
      rw [List.flatten_cons, linePayloads, List.filterMap_append]
      rfl
    obtain ⟨hevent, hevent'⟩ := length_payload? event
    rw [hfilter, hflat]
    refine ⟨fun h => ?_, ?_, ?_⟩
    · rw [hsame fun e he => h e (List.mem_cons_of_mem event he), linePayloads_of_le_one (h event (List.mem_cons_self ..))]
    · rw [List.length_append, List.length_append, length_linePayloads event]
      omega
    · rintro ⟨e, he, htwo⟩
      rw [List.length_append, List.length_append, length_linePayloads event]
      obtain rfl | he := List.mem_cons.mp he
      · have := hevent' htwo
        omega
      · have := hlt ⟨e, he, htwo⟩
        omega

/-! ## What parsing the payloads gives -/

section Parse

variable {J : Type} (parse : Text → Option J)

def Rejected (payload : Text) : Prop := payload ≠ .of "[DONE]" ∧ parse payload = none

theorem parsePayload_cases (payload : Text) :
    (∃ event, parsePayload parse payload = .ok event ∧ ¬ Rejected parse payload) ∨
      (parsePayload parse payload = .error .malformedJson ∧ Rejected parse payload) := by
  unfold parsePayload Rejected
  split
  · rename_i hdone
    exact Or.inl ⟨_, rfl, fun h => h.1 hdone⟩
  · rename_i hdone
    split
    · rename_i value hvalue
      exact Or.inl ⟨_, rfl, fun h => by rw [hvalue] at h; cases h.2⟩
    · rename_i hnone
      exact Or.inr ⟨rfl, hdone, hnone⟩

theorem mapM_parsePayload_cases (payloads : List Text) :
    (∃ events, payloads.mapM (parsePayload parse) = .ok events ∧ events.length = payloads.length ∧
        ∀ payload ∈ payloads, ¬ Rejected parse payload) ∨
      (payloads.mapM (parsePayload parse) = .error .malformedJson ∧ ∃ payload ∈ payloads, Rejected parse payload) := by
  induction payloads with
  | nil => exact Or.inl ⟨[], rfl, rfl, fun _ h => nomatch h⟩
  | cons payload payloads ih =>
    rw [List.mapM_cons]
    obtain ⟨event, hevent, hok⟩ | ⟨herror, hbad⟩ := parsePayload_cases parse payload
    · rw [hevent]
      obtain ⟨events, hevents, hlen, hall⟩ | ⟨herror, p, hp, hbad⟩ := ih
      · rw [hevents]
        refine Or.inl ⟨event :: events, rfl, by rw [List.length_cons, List.length_cons, hlen], fun p hp => ?_⟩
        obtain rfl | hp := List.mem_cons.mp hp
        · exact hok
        · exact hall p hp
      · rw [herror]
        exact Or.inr ⟨rfl, p, List.mem_cons_of_mem payload hp, hbad⟩
    · rw [herror]
      exact Or.inr ⟨rfl, payload, List.mem_cons_self .., hbad⟩

theorem mapM_parsePayload_eq_iff {P Q : List Text} (hlen : P ≠ Q → P.length < Q.length) :
    Q.mapM (parsePayload parse) = P.mapM (parsePayload parse) ↔
      P = Q ∨ ((∃ payload ∈ P, Rejected parse payload) ∧ ∃ payload ∈ Q, Rejected parse payload) := by
  constructor
  · intro h
    by_cases hPQ : P = Q
    · exact Or.inl hPQ
    have hlt := hlen hPQ
    obtain ⟨events, hP, hlenP, hallP⟩ | ⟨hP, hbadP⟩ := mapM_parsePayload_cases parse P
    · obtain ⟨events', hQ, hlenQ, -⟩ | ⟨hQ, -⟩ := mapM_parsePayload_cases parse Q
      · rw [hP, hQ] at h
        obtain rfl := Except.ok.inj h
        omega
      · rw [hP, hQ] at h
        cases h
    · obtain ⟨events', hQ, -, -⟩ | ⟨hQ, hbadQ⟩ := mapM_parsePayload_cases parse Q
      · rw [hP, hQ] at h
        cases h
      · exact Or.inr ⟨hbadP, hbadQ⟩
  · rintro (rfl | ⟨⟨p, hp, hbadP⟩, q, hq, hbadQ⟩)
    · rfl
    · obtain ⟨_, -, -, hallP⟩ | ⟨hP, -⟩ := mapM_parsePayload_cases parse P
      · exact absurd hbadP (hallP p hp)
      · obtain ⟨_, -, -, hallQ⟩ | ⟨hQ, -⟩ := mapM_parsePayload_cases parse Q
        · exact absurd hbadQ (hallQ q hq)
        · rw [hP, hQ]

/-! ## Chunks against the whole -/

theorem exists_rejected_iff (groups : List (List Text)) :
    (∃ payload ∈ groups.filterMap payload?, Rejected parse payload) ↔ ∃ lines ∈ groups, Malformed parse lines := by
  simp only [List.mem_filterMap, Malformed, Rejected]
  constructor
  · rintro ⟨payload, ⟨lines, hlines, hpayload⟩, hbad⟩
    exact ⟨lines, hlines, payload, hpayload, hbad⟩
  · rintro ⟨lines, hlines, payload, hpayload, hbad⟩
    exact ⟨payload, ⟨lines, hlines, hpayload⟩, hbad⟩

theorem exists_rejected_line_iff (lines : List Text) :
    (∃ payload ∈ linePayloads lines, Rejected parse payload) ↔ ∃ line ∈ lines, Malformed parse [line] := by
  have heq : linePayloads lines = (lines.map ([·])).filterMap payload? := by
    rw [List.filterMap_map]
    rfl
  rw [heq, exists_rejected_iff]
  simp

theorem linePayloads_filter (lines : List Text) : linePayloads (lines.filter (· ≠ [])) = linePayloads lines := by
  rw [linePayloads, List.filterMap_filter]
  refine List.filterMap_congr fun line _ => ?_
  split
  · rfl
  · rename_i hnil
    obtain rfl : line = [] := by simpa using hnil
    rfl

variable {parse}

/-- However a stream of lines is cut into chunks, it gives the events of its LF text parsed at once, unless its
line ends are CRLF and an event has two data lines. Then it does so only when both ways reject the stream. -/
theorem readSse_eq_parseFinal_iff (terminator : LineTerminator) {lines chunks : List Text}
    (hlines : ∀ line ∈ lines, Plain line) (hchunks : chunks.flatten = sseText terminator lines)
    (hbound : BuffersWithinBound [] chunks) (hwhole : (sseText .lf lines).length ≤ maxProviderSseBufferCodeUnits) :
    readSse parse [] chunks = (parseFinalSseChunk parse (sseText .lf lines)).map SseChunk.events ↔
      terminator ≠ .crlf ∨ (∀ event ∈ sseEvents lines, (dataLines event).length ≤ 1) ∨
        ((∃ event ∈ sseEvents lines, Malformed parse event) ∧ ∃ line ∈ lines, Malformed parse [line]) := by
  have hskip : blockDelimiter.SkipsOver [] [] := fun y hy hsuffix => absurd (List.suffix_nil.mp hsuffix) hy
  have hwholePayloads : payloads (blockDelimiter.complete (sseText .lf lines ++ [lf, lf])) =
      (sseEvents lines).filterMap payload? :=
    (payloads_complete_lf (onlyNewline_intercalate hlines)).trans (payloads_split rfl hlines)
  rw [readSse_eq parse hbound, parseFinalSseChunk_eq parse hwhole, hwholePayloads]
  have hone : ∀ {nl : Nat}, isNewline nl = true → chunks.flatten = ([nl] : Text).intercalate lines →
      payloads (readBlocks [] chunks) = (sseEvents lines).filterMap payload? := by
    intro nl hnl htext
    rw [payloads_readBlocks hnl (by rw [htext]; exact onlyNewline_intercalate hlines), htext, payloads_split hnl hlines]
  cases terminator with
  | lf => simp [hone rfl hchunks]
  | cr => simp [hone rfl hchunks]
  | crlf =>
    have htext : chunks.flatten = ([cr, lf] : Text).intercalate lines := hchunks
    obtain ⟨hle, hall⟩ := readBlocks_crlf chunks [] hskip (by rw [htext]; exact (crlfText_intercalate hlines).part)
    rw [List.nil_append, htext, contents_intercalate (by decide) (by decide) hlines] at hall
    obtain ⟨hsame, -, hlt⟩ := payloads_events (sseEvents lines)
    rw [flatten_sseEvents, linePayloads_filter] at hsame hlt
    have htwo : ¬ (∀ event ∈ sseEvents lines, (dataLines event).length ≤ 1) →
        ((sseEvents lines).filterMap payload?).length < (linePayloads lines).length := by
      intro h
      push Not at h
      exact hlt h
    rw [payloads_of_one_line hle, hall, ← linePayloads, linePayloads_filter,
      mapM_parsePayload_eq_iff parse fun hne => htwo fun h => hne (hsame h), exists_rejected_iff, exists_rejected_line_iff]
    constructor
    · rintro (heq | hboth)
      · refine Or.inr (Or.inl (by_contra fun h => ?_))
        exact Nat.ne_of_lt (htwo h) (congrArg List.length heq)
      · exact Or.inr (Or.inr hboth)
    · rintro (h | h | hboth)
      · exact absurd rfl h
      · exact Or.inl (hsame h)
      · exact Or.inr hboth

/-- An event of three lines, the stream cut between the two CRs of its blank line. -/
theorem readSse_eq_parseFinal_cr :
    let lines : List Text := [.of "id:7", .of "data:[", .of "data:]", [], []]
    let parse : Text → Option (List Nat) := fun t => if t = .of "[\n]" then some [] else none
    readSse parse [] [.of "id:7\rdata:[\rdata:]\r", .of "\r"] =
      (parseFinalSseChunk parse (sseText .lf lines)).map SseChunk.events := by
  intro lines parse
  have hlines : ∀ line ∈ lines, Plain line := by
    unfold Plain
    decide
  exact (readSse_eq_parseFinal_iff .cr hlines (by decide) (by decide)
    (by decide)).mpr (Or.inl (by decide))

/-- An event whose data, `[]`, takes two lines is rejected when the line ends are CRLF. -/
theorem crlf_splits_event :
    ¬ ∀ (parse : Text → Option (List Nat)) (terminator : LineTerminator) (lines chunks : List Text),
      (∀ line ∈ lines, Plain line) → chunks.flatten = sseText terminator lines → BuffersWithinBound [] chunks →
      (sseText .lf lines).length ≤ maxProviderSseBufferCodeUnits →
      readSse parse [] chunks = (parseFinalSseChunk parse (sseText .lf lines)).map SseChunk.events := by
  intro h
  have hlines : ∀ line ∈ ([.of "data:[", .of "data:]", [], []] : List Text), Plain line := by
    unfold Plain
    decide
  have heq := h (fun t => if t = .of "[\n]" then some [] else none) .crlf _ [.of "data:[\r\ndata:]\r\n\r\n"] hlines
    (by decide) (by decide) (by decide)
  revert heq
  decide

end Parse

end Veryfront.Provider
