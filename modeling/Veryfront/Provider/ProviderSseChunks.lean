import Veryfront.Provider.ProviderSse

/-!
# What chunks and line ends change

No cut between two chunks changes the events, and neither does a CR in place of each LF. A CRLF is two line
ends to the delimiter, so in a CRLF stream every line ends its block, and each data line is an event.
-/

namespace Veryfront.Provider

open Lib

/-! ## The lines of a text that are not blank -/

def contents (t : Text) : List Text := (t.splitOnP isNewline).filter (· ≠ [])

def Plain (t : Text) : Prop := ∀ c ∈ t, isNewline c = false

variable {c : Nat}

theorem isNewline_iff : isNewline c = true ↔ c = lf ∨ c = cr := by
  simp [isNewline]

variable {t : Text}

theorem contents_of_plain (h : Plain t) : contents t = [t].filter (· ≠ []) := by
  rw [contents, List.splitOnP_eq_singleton h]

theorem contents_append_newline (x t : Text) (hc : isNewline c = true) :
    contents (x ++ c :: t) = contents x ++ contents t := by
  rw [contents, List.splitOnP_append_cons _ _ hc, List.filter_append]
  rfl

theorem contents_newline_cons (t : Text) (hc : isNewline c = true) : contents (c :: t) = contents t := by
  have h := contents_append_newline [] t hc
  rwa [List.nil_append] at h

theorem contents_newlines_append {mark : Text} (h : ∀ c ∈ mark, isNewline c = true) (t : Text) :
    contents (mark ++ t) = contents t := by
  induction mark with
  | nil => rfl
  | cons c mark ih =>
    rw [List.cons_append, contents_newline_cons _ (h c (List.mem_cons_self ..))]
    exact ih fun d hd => h d (List.mem_cons_of_mem c hd)

theorem contents_append_mark (x : Text) {mark : Text} (hne : mark ≠ []) (h : ∀ c ∈ mark, isNewline c = true) (t : Text) :
    contents (x ++ (mark ++ t)) = contents x ++ contents t := by
  obtain ⟨c, mark, rfl⟩ := List.exists_cons_of_ne_nil hne
  rw [List.cons_append, contents_append_newline _ _ (h c (List.mem_cons_self ..)),
    contents_newlines_append fun d hd => h d (List.mem_cons_of_mem c hd)]

/-! ## Where the separators are -/

theorem lineEnds_of_newline (h : isNewline c = true) (t : Text) : t ∈ lineEnds (c :: t) := by
  obtain rfl | rfl := isNewline_iff.mp h
  · exact List.mem_singleton.mpr rfl
  · unfold lineEnds cr
    split <;> simp_all

theorem find_mark {rest : Text} (h : rest ∈ lineEnds t) : ∃ mark, mark ≠ [] ∧
    (∀ c ∈ mark, isNewline c = true) ∧ t = mark ++ rest := by
  obtain ⟨mark, hne, hmark, rfl⟩ := mem_lineEnds h
  exact ⟨mark, hne, fun c hc => isNewline_iff.mpr (hmark c hc), rfl⟩

theorem lineBreak_mark {rest : Text} (h : lineBreak.find t = some rest) :
    ∃ mark, mark ≠ [] ∧ (∀ c ∈ mark, isNewline c = true) ∧ t = mark ++ rest :=
  find_mark (List.mem_of_head? h)

theorem blockDelimiter_mark {rest : Text} (h : blockDelimiter.find t = some rest) :
    ∃ mark, 2 ≤ mark.length ∧ (∀ c ∈ mark, isNewline c = true) ∧ t = mark ++ rest := by
  obtain ⟨after, hafter, hrest⟩ := List.mem_flatMap.mp (List.mem_of_head? h)
  obtain ⟨mark, hne, hmark, rfl⟩ := find_mark hafter
  obtain ⟨second, hne', hsecond, rfl⟩ := find_mark hrest
  refine ⟨mark ++ second, ?_, fun c hc => ?_, (List.append_assoc ..).symm⟩
  · have hpos := List.length_pos_iff.mpr hne
    have hpos' := List.length_pos_iff.mpr hne'
    rw [List.length_append]
    omega
  · exact (List.mem_append.mp hc).elim (hmark c) (hsecond c)

theorem lineBreak_find_isSome (h : isNewline c = true) (t : Text) : lineBreak.find (c :: t) ≠ none := by
  intro hnone
  have hmem := lineEnds_of_newline h t
  rw [List.head?_eq_none_iff.mp hnone] at hmem
  cases hmem

theorem blockDelimiter_find_isSome {d : Nat} (hc : isNewline c = true) (hd : isNewline d = true) (t : Text) :
    blockDelimiter.find (c :: d :: t) ≠ none := by
  intro hnone
  have hmem : t ∈ (lineEnds (c :: d :: t)).flatMap lineEnds :=
    List.mem_flatMap.mpr ⟨d :: t, lineEnds_of_newline hc _, lineEnds_of_newline hd _⟩
  rw [List.head?_eq_none_iff.mp hnone] at hmem
  cases hmem

theorem blockDelimiter_find_eq_none (h : ∀ c d rest, t = c :: d :: rest → isNewline c = true → isNewline d = false) :
    blockDelimiter.find t = none := by
  cases hfind : blockDelimiter.find t with
  | none => rfl
  | some rest =>
    obtain ⟨after, hafter, hrest⟩ := List.mem_flatMap.mp (List.mem_of_head? hfind)
    obtain ⟨mark, hne, hmark, rfl⟩ := find_mark hafter
    obtain ⟨second, hne', hsecond, rfl⟩ := find_mark hrest
    obtain ⟨c, mark, rfl⟩ := List.exists_cons_of_ne_nil hne
    have hc := hmark c (List.mem_cons_self ..)
    cases mark with
    | nil =>
      obtain ⟨d, second, rfl⟩ := List.exists_cons_of_ne_nil hne'
      have hd := hsecond d (List.mem_cons_self ..)
      rw [h c d _ rfl hc] at hd
      cases hd
    | cons d mark =>
      have hd := hmark d (by simp)
      rw [h c d _ rfl hc] at hd
      cases hd

theorem filter_split_lineBreak (t : Text) : (lineBreak.split t).filter (· ≠ []) = contents t := by
  induction t using lineBreak.cut_induction with
  | whole t h =>
    rw [lineBreak.split_of_skipsOver h, contents_of_plain]
    intro c hc
    obtain ⟨x, y, rfl⟩ := List.append_of_mem hc
    refine Bool.eq_false_iff.mpr fun hnew => lineBreak_find_isSome hnew y ?_
    have hnone := h (c :: y) (List.cons_ne_nil _ _) (List.suffix_append x _)
    rwa [List.append_nil] at hnone
  | cut p s rest hskip hfind ih =>
    obtain ⟨mark, hne, hmark, rfl⟩ := lineBreak_mark hfind
    have hplain : Plain p := by
      intro c hc
      obtain ⟨x, y, rfl⟩ := List.append_of_mem hc
      exact Bool.eq_false_iff.mpr fun hnew =>
        lineBreak_find_isSome hnew _ (hskip (c :: y) (List.cons_ne_nil _ _) (List.suffix_append x _))
    rw [lineBreak.split_cut hskip hfind, contents_append_mark p hne hmark, contents_of_plain hplain, ← ih,
      ← List.filter_append]
    rfl

theorem contents_append (t u : Text) : contents (t ++ u) =
    (blockDelimiter.complete t).flatMap contents ++ contents (blockDelimiter.remainder t ++ u) := by
  induction t using blockDelimiter.cut_induction with
  | whole t h =>
    rw [blockDelimiter.complete_of_skipsOver h, blockDelimiter.remainder_of_skipsOver h]
    rfl
  | cut p s rest hskip hfind ih =>
    obtain ⟨mark, hlen, hmark, rfl⟩ := blockDelimiter_mark hfind
    have hne : mark ≠ [] := List.length_pos_iff.mp (by omega)
    rw [blockDelimiter.complete_cut hskip hfind, blockDelimiter.remainder_cut hskip hfind, List.flatMap_cons,
      List.append_assoc, List.append_assoc, List.append_assoc, contents_append_mark p hne hmark, ih]

/-! ## Texts without a delimiter -/

/-- No two line ends follow each other. -/
def NoPair (t : Text) : Prop := ∀ x c d y, t = x ++ c :: d :: y → isNewline c = true → isNewline d = false

theorem noPair_of_skipsOver {s : Text} (h : blockDelimiter.SkipsOver t s) : NoPair t := by
  rintro x c d y rfl hc
  refine Bool.eq_false_iff.mpr fun hd => blockDelimiter_find_isSome hc hd (y ++ s) ?_
  exact h (c :: d :: y) (List.cons_ne_nil _ _) (List.suffix_append x _)

theorem skipsOver_of_noPair {s : Text} (h : NoPair (t ++ s.take 1)) : blockDelimiter.SkipsOver t s := by
  rintro y hy ⟨x, rfl⟩
  obtain ⟨a, y, rfl⟩ := List.exists_cons_of_ne_nil hy
  refine blockDelimiter_find_eq_none fun c d rest heq hc => ?_
  obtain ⟨rfl, hrest⟩ := List.cons.inj heq
  cases y with
  | cons b y =>
    obtain ⟨rfl, -⟩ := List.cons.inj hrest
    exact h x a b (y ++ s.take 1) (by simp) hc
  | nil =>
    obtain rfl : s = d :: rest := hrest
    exact h x a d [] (by simp) hc

theorem noPair_of_plain {x : Text} (h : Plain x) (t : Text) (ht : NoPair t) : NoPair (x ++ t) := by
  induction x with
  | nil => exact ht
  | cons a x ih =>
    rintro z c d y heq hc
    cases z with
    | nil =>
      obtain ⟨rfl, -⟩ := List.cons.inj heq
      rw [h a (List.mem_cons_self ..)] at hc
      cases hc
    | cons b z =>
      obtain ⟨-, hrest⟩ := List.cons.inj heq
      exact ih (fun e he => h e (List.mem_cons_of_mem a he)) z c d y hrest hc

theorem noPair_short (h : t.length ≤ 1) : NoPair t := by
  rintro x c d y rfl
  rw [List.length_append, List.length_cons, List.length_cons] at h
  omega

theorem noPair_append_singleton (h : NoPair t) (hlast : ∀ d ∈ t.getLast?, isNewline d = false) :
    NoPair (t ++ [c]) := by
  rintro x a b y heq ha
  obtain rfl | ⟨y, e, rfl⟩ := List.eq_nil_or_concat y
  · have hsplit : t ++ [c] = (x ++ [a]) ++ [b] := by rw [heq, List.append_assoc]; rfl
    obtain ⟨rfl, -⟩ := List.append_inj' hsplit rfl
    rw [hlast a (by simp)] at ha
    cases ha
  · have hsplit : t ++ [c] = (x ++ a :: b :: y) ++ [e] := by rw [heq]; simp
    obtain ⟨rfl, -⟩ := List.append_inj' hsplit rfl
    exact h x a b y rfl ha

/-! ## The payloads of the blocks -/

def payloads (blocks : List Text) : List Text := blocks.filterMap fun block => payload? (contents block)

/-- All blocks that a reader of the chunks cuts, those of the final chunk included. -/
def readBlocks (remainder : Text) (chunks : List Text) : List Text :=
  (blockDelimiter.feed remainder chunks).1 ++ blockDelimiter.complete ((blockDelimiter.feed remainder chunks).2 ++ [lf, lf])

theorem readBlocks_cons (remainder chunk : Text) (chunks : List Text) : readBlocks remainder (chunk :: chunks) =
    blockDelimiter.complete (remainder ++ chunk) ++ readBlocks (blockDelimiter.remainder (remainder ++ chunk)) chunks := by
  rw [readBlocks, Separator.feed]
  exact List.append_assoc _ _ _

theorem dataLines_filter (lines : List Text) : dataLines (lines.filter (· ≠ [])) = dataLines lines := by
  rw [dataLines, List.filter_filter, dataLines]
  congr 1
  refine List.filter_congr fun line _ => ?_
  cases line with
  | nil => rfl
  | cons c line => simp

theorem payload?_congr {lines lines' : List Text} (h : lines.filter (· ≠ []) = lines'.filter (· ≠ [])) :
    payload? lines = payload? lines' := by
  rw [payload?, payload?, ← dataLines_filter lines, h, dataLines_filter]

theorem payload?_split (block : Text) : payload? (lineBreak.split block) = payload? (contents block) := by
  refine payload?_congr ?_
  rw [filter_split_lineBreak, contents, List.filter_filter]
  simp

theorem payloads_append (blocks blocks' : List Text) : payloads (blocks ++ blocks') = payloads blocks ++ payloads blocks' :=
  List.filterMap_append

section Parse

variable {J : Type} (parse : Text → Option J)

theorem mapM_parseBlock (blocks : List Text) :
    (blocks.mapM (parseBlock parse)).map List.flatten = (payloads blocks).mapM (parsePayload parse) := by
  induction blocks with
  | nil => rfl
  | cons block blocks ih =>
    rw [payloads, List.filterMap_cons, List.mapM_cons, ← payload?_split, parseBlock]
    cases payload? (lineBreak.split block) with
    | none =>
      simp only
      rw [← payloads, ← ih]
      cases blocks.mapM (parseBlock parse) <;> rfl
    | some payload =>
      simp only
      rw [← payloads, List.mapM_cons, ← ih]
      cases parsePayload parse payload with
      | error e => rfl
      | ok event => cases blocks.mapM (parseBlock parse) <;> rfl

theorem parseSseBlocks_eq {chunk : Text} (h : (blockDelimiter.remainder chunk).length ≤ maxProviderSseBufferCodeUnits) :
    parseSseBlocks parse chunk = ((payloads (blockDelimiter.complete chunk)).mapM (parsePayload parse)).map
      fun events => ⟨events, blockDelimiter.remainder chunk⟩ := by
  rw [parseSseBlocks, ← mapM_parseBlock]
  simp only [if_neg (not_lt.mpr h)]
  cases (blockDelimiter.complete chunk).mapM (parseBlock parse) <;> rfl

theorem parseSseChunk_eq {chunk : Text} (h : chunk.length ≤ maxProviderSseBufferCodeUnits) :
    parseSseChunk parse chunk = ((payloads (blockDelimiter.complete chunk)).mapM (parsePayload parse)).map
      fun events => ⟨events, blockDelimiter.remainder chunk⟩ := by
  rw [parseSseChunk, parseBoundedSseChunk, if_neg (not_lt.mpr h), parseSseBlocks_eq]
  exact (blockDelimiter.remainder_suffix chunk).length_le.trans h

theorem length_remainder_final (t : Text) : (blockDelimiter.remainder (t ++ [lf, lf])).length ≤ t.length := by
  have hcut : ∀ u, ¬ blockDelimiter.SkipsOver u [] → (blockDelimiter.remainder u).length + 2 ≤ u.length := by
    intro u hu
    obtain hnone | ⟨p, s, rest, rfl, hskip, hfind⟩ := blockDelimiter.cut_cases u
    · exact absurd hnone hu
    · obtain ⟨mark, hlen, -, rfl⟩ := blockDelimiter_mark hfind
      have hle := (blockDelimiter.remainder_suffix rest).length_le
      rw [blockDelimiter.remainder_cut hskip hfind, List.length_append, List.length_append]
      omega
  have hfound := hcut (t ++ [lf, lf]) fun hskip => by
    have hnone := hskip [lf, lf] (by decide) (List.suffix_append t _)
    exact blockDelimiter_find_isSome rfl rfl [] hnone
  simpa using hfound

theorem parseFinalSseChunk_eq {chunk : Text} (h : chunk.length ≤ maxProviderSseBufferCodeUnits) :
    (parseFinalSseChunk parse chunk).map SseChunk.events =
      (payloads (blockDelimiter.complete (chunk ++ [lf, lf]))).mapM (parsePayload parse) := by
  have hlen : (chunk ++ [lf, lf]).length ≤ maxProviderSseBufferCodeUnits + 2 := by simpa using h
  rw [parseFinalSseChunk, if_neg (not_lt.mpr h), parseBoundedSseChunk, if_neg (not_lt.mpr hlen),
    parseSseBlocks_eq _ ((length_remainder_final chunk).trans h)]
  cases (payloads (blockDelimiter.complete (chunk ++ [lf, lf]))).mapM (parsePayload parse) <;> rfl

theorem readSse_eq {remainder : Text} {chunks : List Text} (h : BuffersWithinBound remainder chunks) :
    readSse parse remainder chunks = (payloads (readBlocks remainder chunks)).mapM (parsePayload parse) := by
  induction chunks generalizing remainder with
  | nil =>
    have hfinal := parseFinalSseChunk_eq parse h
    have hblocks : readBlocks remainder [] = blockDelimiter.complete (remainder ++ [lf, lf]) := rfl
    rw [hblocks, ← hfinal, readSse]
    cases parseFinalSseChunk parse remainder <;> rfl
  | cons chunk chunks ih =>
    obtain ⟨hlen, hrest⟩ := h
    rw [readSse, parseSseChunk_eq parse hlen, readBlocks_cons, payloads_append, List.mapM_append, ← ih hrest]
    cases (payloads (blockDelimiter.complete (remainder ++ chunk))).mapM (parsePayload parse) with
    | error e => rfl
    | ok events =>
      simp only [Except.map, bind, Except.bind]

end Parse

/-! ## The final chunk -/

theorem complete_final {r : Text} (h : blockDelimiter.SkipsOver r []) :
    ∃ block, blockDelimiter.complete (r ++ [lf, lf]) = [block] ∧ contents block = contents r := by
  have hpair := noPair_of_skipsOver h
  have hend : ∀ {p s rest : Text}, blockDelimiter.SkipsOver p s → blockDelimiter.find s = some rest → rest.length ≤ 1 →
      blockDelimiter.complete (p ++ s) = [p] := by
    intro p s rest hskip hfind hrest
    rw [blockDelimiter.complete_cut hskip hfind, blockDelimiter.complete_of_skipsOver]
    exact skipsOver_of_noPair (noPair_short (by simpa using hrest))
  obtain rfl | ⟨x, c, rfl⟩ := List.eq_nil_or_concat r
  · exact ⟨[], rfl, rfl⟩
  rw [List.concat_eq_append] at hpair ⊢
  cases hc : isNewline c with
  | false =>
    refine ⟨x ++ [c], hend (skipsOver_of_noPair (noPair_append_singleton hpair ?_)) rfl (Nat.zero_le 1), rfl⟩
    intro d hd
    obtain rfl : c = d := by simpa using hd
    exact hc
  | true =>
    have hfind : ∃ rest : Text, blockDelimiter.find [c, lf, lf] = some rest ∧ rest.length ≤ 1 := by
      obtain rfl | rfl := isNewline_iff.mp hc
      · exact ⟨[lf], rfl, le_rfl⟩
      · exact ⟨[], rfl, Nat.zero_le 1⟩
    obtain ⟨rest, hfind, hrest⟩ := hfind
    refine ⟨x, ?_, ?_⟩
    · rw [List.append_assoc]
      exact hend (skipsOver_of_noPair hpair) hfind hrest
    · rw [contents_append_newline x [] hc]
      exact (List.append_nil _).symm

theorem payloads_final {r : Text} (h : blockDelimiter.SkipsOver r []) :
    payloads (blockDelimiter.complete (r ++ [lf, lf])) = payloads [r] := by
  obtain ⟨block, hblock, hcontents⟩ := complete_final h
  rw [hblock, payloads, payloads, List.filterMap_cons, List.filterMap_cons, hcontents]

theorem skipsOver_feed {r : Text} (h : blockDelimiter.SkipsOver r []) (chunks : List Text) :
    blockDelimiter.SkipsOver (blockDelimiter.feed r chunks).2 [] := by
  induction chunks generalizing r with
  | nil => exact h
  | cons chunk chunks ih => exact ih (blockDelimiter.skipsOver_remainder _)

/-! ## Streams whose line ends are all LF, or all CR -/

def OnlyNewline (nl : Nat) (t : Text) : Prop := ∀ c ∈ t, isNewline c = true → c = nl

variable {nl : Nat}

theorem find_pair (hnl : isNewline nl = true) (h : OnlyNewline nl t) :
    blockDelimiter.find (nl :: nl :: t) = some t := by
  obtain rfl | rfl := isNewline_iff.mp hnl
  · rfl
  · cases t with
    | nil => rfl
    | cons c t =>
      have hc : c ≠ lf := by
        rintro rfl
        exact absurd (h lf (List.mem_cons_self ..) rfl) (by decide)
      have hends : lineEnds (cr :: c :: t) = [c :: t] := by
        unfold lineEnds cr
        split <;> simp_all [lf]
      show ((lineEnds (cr :: cr :: c :: t)).flatMap lineEnds).head? = _
      rw [show lineEnds (cr :: cr :: c :: t) = [cr :: c :: t] from rfl, List.flatMap_cons, hends]
      rfl

theorem split_onlyNewline (hnl : isNewline nl = true) (h : OnlyNewline nl t) :
    blockDelimiter.split t = (fixedSeparator nl [nl]).split t := by
  refine Separator.split_congr fun s hs => ?_
  have hs : OnlyNewline nl s := fun c hc => h c (hs.subset hc)
  by_cases hpre : [nl, nl] <+: s
  · obtain ⟨u, rfl⟩ := hpre
    rw [fixed_find_eq_some.mpr rfl]
    exact find_pair hnl fun c hc => hs c (List.mem_append_right [nl, nl] hc)
  · rw [fixed_find_eq_none.mpr hpre]
    refine blockDelimiter_find_eq_none fun c d rest heq hc => Bool.eq_false_iff.mpr fun hd => hpre ?_
    obtain rfl : c = nl := hs c (by simp [heq]) hc
    obtain rfl : d = c := hs d (by simp [heq]) hd
    exact ⟨rest, heq.symm⟩

theorem complete_onlyNewline (hnl : isNewline nl = true) (h : OnlyNewline nl t) :
    blockDelimiter.complete t = (fixedSeparator nl [nl]).complete t := by
  rw [Separator.complete, split_onlyNewline hnl h, Separator.complete]

theorem remainder_onlyNewline (hnl : isNewline nl = true) (h : OnlyNewline nl t) :
    blockDelimiter.remainder t = (fixedSeparator nl [nl]).remainder t := by
  rw [Separator.remainder, split_onlyNewline hnl h, Separator.remainder]

theorem feed_onlyNewline (hnl : isNewline nl = true) (chunks : List Text) :
    ∀ r, OnlyNewline nl (r ++ chunks.flatten) → blockDelimiter.feed r chunks = (fixedSeparator nl [nl]).feed r chunks := by
  induction chunks with
  | nil => exact fun r _ => rfl
  | cons chunk chunks ih =>
    intro r h
    rw [List.flatten_cons, ← List.append_assoc] at h
    have hbuffer : OnlyNewline nl (r ++ chunk) := fun c hc => h c (List.mem_append_left _ hc)
    rw [Separator.feed, Separator.feed, complete_onlyNewline hnl hbuffer, ← remainder_onlyNewline hnl hbuffer, ih]
    · intro c hc
      obtain hc | hc := List.mem_append.mp hc
      · exact h c (List.mem_append_left _ ((blockDelimiter.remainder_suffix _).subset hc))
      · exact h c (List.mem_append_right _ hc)

theorem payloads_readBlocks (hnl : isNewline nl = true) {chunks : List Text} (h : OnlyNewline nl chunks.flatten) :
    payloads (readBlocks [] chunks) = payloads (blockDelimiter.split chunks.flatten) := by
  have hskip : ∀ sep : Separator Nat, sep.SkipsOver [] [] := fun sep y hy hsuffix => absurd (List.suffix_nil.mp hsuffix) hy
  have hfeed := feed_onlyNewline hnl chunks [] h
  have hsplit := split_onlyNewline hnl h
  rw [readBlocks, payloads_append, payloads_final (skipsOver_feed (hskip _) chunks), hfeed, fixed_feed _ _ (hskip _),
    ← payloads_append, List.nil_append, ← Separator.split_eq, hsplit]

theorem payloads_complete_lf (h : OnlyNewline lf t) :
    payloads (blockDelimiter.complete (t ++ [lf, lf])) = payloads (blockDelimiter.split t) := by
  have hall : OnlyNewline lf (t ++ [lf, lf]) := by
    intro c hc hnew
    obtain hc | hc := List.mem_append.mp hc
    · exact h c hc hnew
    · simpa using hc
  have hrest : OnlyNewline lf (blockDelimiter.remainder t ++ [lf, lf]) := by
    intro c hc
    obtain hc | hc := List.mem_append.mp hc
    · exact h c ((blockDelimiter.remainder_suffix t).subset hc)
    · exact hall c (List.mem_append_right _ hc)
  have hsplit : blockDelimiter.complete (t ++ [lf, lf]) =
      blockDelimiter.complete t ++ blockDelimiter.complete (blockDelimiter.remainder t ++ [lf, lf]) := by
    rw [complete_onlyNewline rfl hall, complete_onlyNewline rfl hrest, complete_onlyNewline rfl h,
      remainder_onlyNewline rfl h, fixed_complete_append]
  rw [hsplit, payloads_append, payloads_final (blockDelimiter.skipsOver_remainder t), ← payloads_append,
    ← Separator.split_eq]

end Veryfront.Provider
