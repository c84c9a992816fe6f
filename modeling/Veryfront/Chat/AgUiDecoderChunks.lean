import Veryfront.Chat.AgUiDecoder
import Mathlib.Data.List.TakeWhile

/-!
# Chunks and line ends of an AG-UI stream

After each chunk the decoder keeps the rest of the text so far, with its line ends made LF, and a CR at its end.
So the frames are those of the whole text, however it is cut.
-/

namespace Veryfront

open Lib

/-! ## Line ends made LF -/

theorem replaceCrlf_cons {c : Nat} {t : Text} (h : c ≠ cr ∨ t.head? ≠ some lf) : replaceCrlf (c :: t) = c :: replaceCrlf t := by
  rw [replaceCrlf]
  rintro rest rfl rfl
  obtain h | h := h
  · exact h rfl
  · exact h rfl

theorem replaceCrlf_append {x y : Text} (h : x.getLast? ≠ some cr ∨ y.head? ≠ some lf) :
    replaceCrlf (x ++ y) = replaceCrlf x ++ replaceCrlf y := by
  fun_induction replaceCrlf x with
  | case1 rest ih =>
    have hrest : rest.getLast? ≠ some cr ∨ y.head? ≠ some lf := by
      refine h.imp_left fun hlast => ?_
      cases rest with
      | nil => simp
      | cons c rest => simpa using hlast
    rw [List.cons_append, List.cons_append, replaceCrlf, ih hrest]
    rfl
  | case2 c rest hnot ih =>
    have hcons : c ≠ cr ∨ (rest ++ y).head? ≠ some lf := by
      by_cases hc : c = cr
      · refine Or.inr ?_
        cases rest with
        | nil => exact h.resolve_left (by simp [hc])
        | cons d rest =>
          intro hd
          obtain rfl : d = 10 := Option.some.inj hd
          exact hnot rest hc rfl
      · exact Or.inl hc
    have hrest : rest.getLast? ≠ some cr ∨ y.head? ≠ some lf := by
      refine h.imp_left fun hlast => ?_
      cases rest with
      | nil => simp
      | cons d rest => simpa using hlast
    rw [List.cons_append, replaceCrlf_cons hcons, ih hrest]
    rfl
  | case3 => rfl

theorem normalizeNewlines_append {x y : Text} (h : x.getLast? ≠ some cr ∨ y.head? ≠ some lf) :
    normalizeNewlines (x ++ y) = normalizeNewlines x ++ normalizeNewlines y := by
  rw [normalizeNewlines, replaceCrlf_append h, List.map_append]
  rfl

theorem cr_notMem_normalizeNewlines (t : Text) : cr ∉ normalizeNewlines t := by
  intro h
  obtain ⟨c, -, hc⟩ := List.mem_map.mp h
  split at hc
  · exact absurd hc (by decide)
  · contradiction

theorem normalizeNewlines_of_no_cr {t : Text} (h : cr ∉ t) : normalizeNewlines t = t := by
  induction t with
  | nil => rfl
  | cons c t ih =>
    have hc : c ≠ cr := fun hc => h (hc ▸ List.mem_cons_self ..)
    have hone : normalizeNewlines [c] = [c] := by
      rw [normalizeNewlines, replaceCrlf_cons (Or.inl hc), List.map_cons, if_neg hc]
      rfl
    have happend := normalizeNewlines_append (x := [c]) (y := t) (Or.inl (by simpa using hc))
    rw [hone, ih fun ht => h (List.mem_cons_of_mem c ht)] at happend
    exact happend

/-! ## Frames -/

namespace FrameSplit

theorem find_cons_cons (t : Text) : frameSeparator.find (lf :: lf :: t) = some t := fixed_find_eq_some.mpr rfl

theorem complete_append (t u : Text) : frameSeparator.complete (t ++ u) =
    frameSeparator.complete t ++ frameSeparator.complete (frameSeparator.remainder t ++ u) :=
  fixed_complete_append t u

theorem remainder_append (t u : Text) : frameSeparator.remainder (t ++ u) =
    frameSeparator.remainder (frameSeparator.remainder t ++ u) :=
  fixed_remainder_append t u

theorem length_unfinished {r : Text} (h : frameSeparator.SkipsOver r []) (rest : Text) :
    (∃ frame ∈ frameSeparator.complete (r ++ rest), r.length ≤ frame.length + 1) ∨
      frameSeparator.remainder (r ++ rest) = r ++ rest := by
  obtain hnone | ⟨p, s, after, heq, hskip, hfind⟩ := frameSeparator.cut_cases (r ++ rest)
  · exact Or.inr (frameSeparator.remainder_of_skipsOver hnone)
  · obtain rfl := fixed_find_eq_some.mp hfind
    rw [heq, frameSeparator.complete_cut hskip hfind]
    refine Or.inl ⟨p, List.mem_cons_self .., not_lt.mp fun hlt => ?_⟩
    -- Otherwise the whole blank line would be in the unfinished frame.
    have hpre : p ++ [lf, lf] <+: r := by
      refine List.prefix_of_prefix_length_le ⟨after, ?_⟩ (List.prefix_append r rest) ?_
      · rw [heq, List.append_assoc]
      · rw [List.length_append, List.length_cons, List.length_singleton]
        omega
    obtain ⟨u, rfl⟩ := hpre
    have hnone := h ([lf, lf] ++ u) (List.cons_ne_nil _ _) ⟨p, by rw [List.append_assoc]⟩
    rw [List.append_nil] at hnone
    exact absurd (hnone.symm.trans (find_cons_cons u)) (by simp)

theorem skips_of_snoc {x : Text} {c : Nat} (h : frameSeparator.SkipsOver (x ++ [c]) []) (s : Text) :
    frameSeparator.SkipsOver x (c :: s) := by
  rintro y hy ⟨z, rfl⟩
  have hnone := h (y ++ [c]) (by simp) ⟨z, by rw [List.append_assoc]⟩
  rw [List.append_nil] at hnone
  refine fixed_find_eq_none.mpr fun hpre => fixed_find_eq_none.mp hnone ?_
  rw [List.append_cons] at hpre
  have hpos := List.length_pos_iff.mpr hy
  refine List.prefix_of_prefix_length_le hpre (List.prefix_append _ _) ?_
  rw [List.length_append, List.length_singleton, List.length_cons, List.length_singleton]
  omega

theorem unfinished_cases {r : Text} (h : frameSeparator.SkipsOver r []) :
    (∃ x, r = x ++ [lf]) ∨ frameSeparator.SkipsOver (r ++ [lf]) [] := by
  by_cases hlast : r.getLast? = some lf
  · obtain ⟨x, hx⟩ := List.getLast?_eq_some_iff.mp hlast
    exact Or.inl ⟨x, hx⟩
  · refine Or.inr fun y hy hsuffix => ?_
    rw [List.append_nil]
    obtain ⟨z, hz⟩ := hsuffix
    obtain ⟨y, c, rfl⟩ := (List.eq_nil_or_concat y).resolve_left hy
    rw [List.concat_eq_append, ← List.append_assoc] at hz
    obtain ⟨rfl, hc⟩ := List.append_inj' hz rfl
    obtain rfl : c = lf := by simpa using hc
    rw [List.concat_eq_append]
    refine fixed_find_eq_none.mpr fun hpre => ?_
    match y, hpre with
    | [], hpre => exact absurd hpre.length_le (by simp)
    | [a], hpre =>
      obtain ⟨u, hu⟩ := hpre
      obtain rfl : lf = a := (List.cons.inj hu).1
      exact hlast (by simp)
    | a :: b :: y, hpre =>
      obtain ⟨u, hu⟩ := hpre
      obtain ⟨rfl, hu'⟩ := List.cons.inj hu
      obtain ⟨rfl, -⟩ := List.cons.inj hu'
      have hnone := h (lf :: lf :: y) (List.cons_ne_nil _ _) (List.suffix_append z _)
      rw [List.append_nil] at hnone
      exact absurd (hnone.symm.trans (find_cons_cons y)) (by simp)

theorem complete_flush {r : Text} (h : frameSeparator.SkipsOver r []) :
    frameSeparator.complete (r ++ [lf, lf]) = frameSeparator.complete (r ++ [lf]) ++
      (if frameSeparator.remainder (r ++ [lf]) = [] then []
        else frameSeparator.complete (frameSeparator.remainder (r ++ [lf]) ++ [lf, lf])) := by
  obtain ⟨x, rfl⟩ | hskip := unfinished_cases h
  · have hcut : ∀ s, frameSeparator.complete (x ++ lf :: lf :: s) = x :: frameSeparator.complete s := fun s =>
      frameSeparator.complete_cut (skips_of_snoc h _) (find_cons_cons s)
    have hrem : frameSeparator.remainder (x ++ [lf] ++ [lf]) = [] := by
      rw [List.append_assoc]
      exact frameSeparator.remainder_cut (skips_of_snoc h _) (find_cons_cons [])
    rw [if_pos hrem, List.append_nil, List.append_assoc, List.append_assoc]
    exact (hcut [lf]).trans (hcut []).symm
  · have hcut : ∀ s, frameSeparator.complete (r ++ lf :: lf :: s) = r :: frameSeparator.complete s := fun s =>
      frameSeparator.complete_cut (skips_of_snoc hskip _) (find_cons_cons s)
    have hne : r ++ [lf] ≠ [] := by simp
    rw [frameSeparator.complete_of_skipsOver hskip, frameSeparator.remainder_of_skipsOver hskip, if_neg hne, List.nil_append,
      List.append_assoc]
    exact (hcut []).trans (hcut [lf]).symm

theorem length_remainder_flush {r : Text} (h : frameSeparator.SkipsOver r []) :
    (frameSeparator.remainder (r ++ [lf, lf])).length ≤ 1 := by
  obtain ⟨x, rfl⟩ | hskip := unfinished_cases h
  · rw [List.append_assoc]
    exact (congrArg List.length (frameSeparator.remainder_cut (skips_of_snoc h _) (find_cons_cons [lf]))).le
  · rw [frameSeparator.remainder_cut (skips_of_snoc hskip _) (find_cons_cons [])]
    exact Nat.zero_le 1

theorem length_frame {t frame : Text} (h : frame ∈ frameSeparator.complete t) : frame.length + 2 ≤ t.length := by
  induction t using frameSeparator.cut_induction with
  | whole t hskip =>
    rw [frameSeparator.complete_of_skipsOver hskip] at h
    cases h
  | cut p s rest hskip hfind ih =>
    rw [frameSeparator.complete_cut hskip hfind] at h
    obtain rfl := fixed_find_eq_some.mp hfind
    simp only [List.length_append, List.length_cons, List.length_nil]
    obtain rfl | h := List.mem_cons.mp h
    · omega
    · have := ih h
      omega

end FrameSplit

end Veryfront

namespace Veryfront.Chat

open Lib FrameSplit

/-! ## The text that is kept -/

theorem completeInput_append_trailing (t : Text) : completeInput t ++ trailingCarriageReturn t = t := by
  unfold completeInput trailingCarriageReturn
  split
  · rename_i h
    obtain ⟨x, rfl⟩ := List.getLast?_eq_some_iff.mp h
    rw [List.dropLast_concat]
  · exact List.append_nil t

theorem trailing_append {x y : Text} (h : y = [] → x.getLast? ≠ some cr) :
    trailingCarriageReturn (x ++ y) = trailingCarriageReturn y ∧ completeInput (x ++ y) = x ++ completeInput y := by
  unfold trailingCarriageReturn completeInput
  by_cases hy : y = []
  · subst hy
    rw [List.append_nil, if_neg (h rfl), if_neg (h rfl)]
    simp
  · rw [List.getLast?_append_of_ne_nil x hy]
    split
    · exact ⟨rfl, List.dropLast_append_of_ne_nil hy⟩
    · exact ⟨rfl, rfl⟩

def kept (given : Text) : Text :=
  frameSeparator.remainder (normalizeNewlines (completeInput given)) ++ trailingCarriageReturn given

/-- What is new to the decoder after a chunk: the chunk, behind the CR that it kept and without a CR at its end. -/
def added (given chunk : Text) : Text := completeInput (trailingCarriageReturn given ++ chunk)

theorem completeInput_of_no_trailing {t : Text} (h : trailingCarriageReturn t = []) :
    completeInput t = t ∧ t.getLast? ≠ some cr := by
  unfold trailingCarriageReturn at h
  split at h
  · cases h
  · rename_i hlast
    exact ⟨if_neg hlast, hlast⟩

theorem trailing_cases (t : Text) : trailingCarriageReturn t = [] ∨ trailingCarriageReturn t = [cr] := by
  unfold trailingCarriageReturn
  split
  · exact Or.inr rfl
  · exact Or.inl rfl

theorem completeInput_chunk (given chunk : Text) {x : Text}
    (hx : trailingCarriageReturn given = [] → x.getLast? ≠ some cr) :
    trailingCarriageReturn (x ++ (trailingCarriageReturn given ++ chunk)) =
        trailingCarriageReturn (trailingCarriageReturn given ++ chunk) ∧
      completeInput (x ++ (trailingCarriageReturn given ++ chunk)) = x ++ added given chunk :=
  trailing_append fun h => hx (List.append_eq_nil_iff.mp h).1

theorem no_crlf_cut (given chunk : Text) {x : Text} (hx : trailingCarriageReturn given = [] → x.getLast? ≠ some cr) :
    x.getLast? ≠ some cr ∨ (added given chunk).head? ≠ some lf := by
  obtain h | h := trailing_cases given
  · exact Or.inl (hx h)
  · refine Or.inr ?_
    rw [added, h, List.singleton_append, completeInput]
    split
    · cases chunk with
      | nil => simp
      | cons c chunk =>
        rw [List.dropLast_cons_of_ne_nil (List.cons_ne_nil _ _)]
        simp [cr, lf]
    · simp [cr, lf]

theorem completeInput_last (given : Text) (h : trailingCarriageReturn given = []) :
    (completeInput given).getLast? ≠ some cr := by
  obtain ⟨heq, hlast⟩ := completeInput_of_no_trailing h
  rwa [heq]

theorem getLast?_ne_cr {t : Text} (h : cr ∉ t) : t.getLast? ≠ some cr := fun hlast => h (List.mem_of_getLast? hlast)

theorem cr_notMem_remainder (t : Text) : cr ∉ frameSeparator.remainder (normalizeNewlines t) := fun h =>
  cr_notMem_normalizeNewlines t ((frameSeparator.remainder_suffix _).subset h)

theorem normalize_chunk (given chunk : Text) : normalizeNewlines (completeInput (given ++ chunk)) =
    normalizeNewlines (completeInput given) ++ normalizeNewlines (added given chunk) := by
  have hlast := completeInput_last given
  rw [← normalizeNewlines_append (no_crlf_cut given chunk hlast), ← (completeInput_chunk given chunk hlast).2,
    ← List.append_assoc, completeInput_append_trailing]

theorem trailing_chunk (given chunk : Text) : trailingCarriageReturn (given ++ chunk) =
    trailingCarriageReturn (trailingCarriageReturn given ++ chunk) := by
  rw [← (completeInput_chunk given chunk (completeInput_last given)).1, ← List.append_assoc, completeInput_append_trailing]

theorem combined_chunk (given chunk : Text) :
    trailingCarriageReturn (kept given ++ chunk) = trailingCarriageReturn (given ++ chunk) ∧
      normalizeNewlines (completeInput (kept given ++ chunk)) =
        frameSeparator.remainder (normalizeNewlines (completeInput given)) ++ normalizeNewlines (added given chunk) := by
  have hno := cr_notMem_remainder (completeInput given)
  obtain ⟨htrailing, hcomplete⟩ := completeInput_chunk given chunk fun _ => getLast?_ne_cr hno
  rw [kept, List.append_assoc, htrailing, hcomplete, normalizeNewlines_append (Or.inl (getLast?_ne_cr hno)),
    normalizeNewlines_of_no_cr hno]
  exact ⟨(trailing_chunk given chunk).symm, rfl⟩

theorem kept_chunk (given chunk : Text) : kept (given ++ chunk) =
    frameSeparator.remainder (normalizeNewlines (completeInput (kept given ++ chunk))) ++
      trailingCarriageReturn (kept given ++ chunk) := by
  obtain ⟨htrailing, hcomplete⟩ := combined_chunk given chunk
  rw [kept, normalize_chunk, remainder_append, htrailing, hcomplete]

/-! ## The frames of a stream -/

/-- The frames of the text, what a flush makes of its end included. -/
def streamFrames (t : Text) : List Text :=
  frameSeparator.complete (normalizeNewlines t) ++
    (if frameSeparator.remainder (normalizeNewlines t) = [] then []
      else frameSeparator.complete (frameSeparator.remainder (normalizeNewlines t) ++ [lf, lf]))

/-- Each frame with its blank line, and the end of the text that no blank line follows, are within the maximum. -/
def FramesFit (maxFrameChars : Nat) (t : Text) : Prop :=
  (∀ frame ∈ frameSeparator.complete (normalizeNewlines t), frame.length + 2 ≤ maxFrameChars) ∧
    (frameSeparator.remainder (normalizeNewlines t)).length ≤ maxFrameChars

theorem normalize_rest (given future : Text) : ∃ rest, normalizeNewlines (given ++ future) =
    normalizeNewlines (completeInput given) ++ rest ∧ (trailingCarriageReturn given).length ≤ rest.length := by
  refine ⟨normalizeNewlines (trailingCarriageReturn given ++ future), ?_, ?_⟩
  · rw [← normalizeNewlines_append, ← List.append_assoc, completeInput_append_trailing]
    obtain h | h := trailing_cases given
    · exact Or.inl (completeInput_last given h)
    · rw [h]
      exact Or.inr (by simp [cr, lf])
  · obtain h | h := trailing_cases given
    · rw [h]
      exact Nat.zero_le _
    · rw [h, List.length_singleton, normalizeNewlines, List.length_map, List.singleton_append]
      unfold replaceCrlf
      split <;> simp_all

theorem kept_fits {maxFrameChars : Nat} {given future : Text} (h : FramesFit maxFrameChars (given ++ future)) :
    (kept given).length ≤ maxFrameChars ∧
      ∀ frame ∈ frameSeparator.complete (normalizeNewlines (completeInput given)), frame.length ≤ maxFrameChars := by
  obtain ⟨hframes, hrest⟩ := h
  obtain ⟨rest, heq, hlen⟩ := normalize_rest given future
  rw [heq] at hrest
  rw [heq, complete_append] at hframes
  constructor
  · rw [kept, List.length_append]
    obtain ⟨frame, hframe, hle⟩ | hall := length_unfinished
      (frameSeparator.skipsOver_remainder (normalizeNewlines (completeInput given))) rest
    · have hfits := hframes frame (List.mem_append_right _ hframe)
      have hone : (trailingCarriageReturn given).length ≤ 1 := by
        obtain h | h := trailing_cases given <;> rw [h] <;> simp
      omega
    · rw [remainder_append, hall, List.length_append] at hrest
      omega
  · intro frame hframe
    have hfits := hframes frame (List.mem_append_left _ hframe)
    omega

/-! ## Decoding -/

section Decode

variable {σ W : Type} (mapFrame : FrameMapping σ W)

def deliverFrames (d : AgUiDelivery σ) : List Text → AgUiDelivery σ × List (AgUiDecodedEvent W)
  | [] => (d, [])
  | rawFrame :: frames =>
    let (d, event) := decodeFrame mapFrame d rawFrame
    let (d, events) := deliverFrames d frames
    (d, event.toList ++ events)

theorem deliverFrames_append (frames frames' : List Text) (d : AgUiDelivery σ) :
    deliverFrames mapFrame d (frames ++ frames') =
      ((deliverFrames mapFrame (deliverFrames mapFrame d frames).1 frames').1,
        (deliverFrames mapFrame d frames).2 ++ (deliverFrames mapFrame (deliverFrames mapFrame d frames).1 frames').2) := by
  induction frames generalizing d with
  | nil => rfl
  | cons rawFrame frames ih =>
    simp only [List.cons_append, deliverFrames, ih, List.append_assoc]

theorem decodeFrames_eq (frames : List Text) : ∀ (state : AgUiChatEventDecoderState σ) (events : List (AgUiDecodedEvent W)),
    (∀ frame ∈ frames, frame.length ≤ state.maxFrameChars) →
    decodeFrames mapFrame state events frames =
      ({ state with delivery := (deliverFrames mapFrame state.delivery frames).1 },
        .ok (events ++ (deliverFrames mapFrame state.delivery frames).2)) := by
  induction frames with
  | nil =>
    intro state events _
    rw [decodeFrames, deliverFrames, List.append_nil]
  | cons rawFrame frames ih =>
    intro state events h
    rw [decodeFrames, if_neg (not_lt.mpr (h rawFrame (List.mem_cons_self ..)))]
    refine (ih { state with delivery := (decodeFrame mapFrame state.delivery rawFrame).1 } _ fun frame hframe =>
      h frame (List.mem_cons_of_mem _ hframe)).trans ?_
    rw [deliverFrames, List.append_assoc]
    rfl

theorem decodeAgUiSseChunk_eq (state : AgUiChatEventDecoderState σ) (chunk : Text) {frames : List Text} {next : Text}
    (hframes : frames = frameSeparator.complete (normalizeNewlines (completeInput (state.remainder ++ chunk))))
    (hnext : next = frameSeparator.remainder (normalizeNewlines (completeInput (state.remainder ++ chunk))) ++
      trailingCarriageReturn (state.remainder ++ chunk))
    (hlen : next.length ≤ state.maxFrameChars) (hall : ∀ frame ∈ frames, frame.length ≤ state.maxFrameChars) :
    decodeAgUiSseChunk mapFrame state chunk =
      ({ state with remainder := next, delivery := (deliverFrames mapFrame state.delivery frames).1 },
        .ok (deliverFrames mapFrame state.delivery frames).2) := by
  subst hframes hnext
  rw [decodeAgUiSseChunk, splitSseFrames]
  simp only [if_neg (not_lt.mpr hlen)]
  exact decodeFrames_eq mapFrame _ { state with remainder := _ } [] hall

theorem flush_eq (state : AgUiChatEventDecoderState σ) {given : Text} (hkept : state.remainder = kept given)
    (hfits : FramesFit state.maxFrameChars given) :
    ∃ frames, frameSeparator.complete (normalizeNewlines (completeInput given)) ++ frames = streamFrames given ∧
      flushAgUiSseChunk mapFrame state =
        ({ state with remainder := [], delivery := (deliverFrames mapFrame state.delivery frames).1 },
          .ok (deliverFrames mapFrame state.delivery frames).2) := by
  have hskip := frameSeparator.skipsOver_remainder (normalizeNewlines (completeInput given))
  obtain ⟨rest, heq, -⟩ := normalize_rest given []
  rw [List.append_nil] at heq
  by_cases hnil : state.remainder = []
  · obtain ⟨hrem, htrailing⟩ := List.append_eq_nil_iff.mp (hkept.symm.trans hnil)
    rw [(completeInput_of_no_trailing htrailing).1] at hrem ⊢
    refine ⟨[], ?_, ?_⟩
    · rw [streamFrames, if_pos hrem]
    · rw [flushAgUiSseChunk, if_pos hnil, deliverFrames, ← hnil]
  · obtain ⟨htrailing, hcomplete⟩ := combined_chunk given [lf, lf]
    have hadded : normalizeNewlines (added given [lf, lf]) = [lf, lf] := by
      rw [added]
      obtain h | h := trailing_cases given <;> rw [h] <;> rfl
    have hnone : trailingCarriageReturn (kept given ++ [lf, lf]) = [] := by
      rw [htrailing, trailing_chunk]
      obtain h | h := trailing_cases given <;> rw [h] <;> rfl
    rw [hadded] at hcomplete
    obtain ⟨hlen, hall⟩ := kept_fits (show FramesFit _ (given ++ []) by rwa [List.append_nil])
    have hdecode := decodeAgUiSseChunk_eq mapFrame state [lf, lf] rfl rfl (by
      rw [hkept, hcomplete, hnone, List.append_nil]
      exact (length_remainder_flush hskip).trans state.maxFrameChars_pos) (by
      intro frame hframe
      rw [hkept, hcomplete] at hframe
      have hle := length_frame hframe
      rw [kept, List.length_append] at hlen
      simp only [List.length_append, List.length_cons, List.length_nil] at hle
      omega)
    rw [hkept, hcomplete] at hdecode
    refine ⟨_, ?_, by rw [flushAgUiSseChunk, if_neg hnil, hdecode]⟩
    obtain h | h := trailing_cases given
    · obtain ⟨hgiven, -⟩ := completeInput_of_no_trailing h
      have hrem : frameSeparator.remainder (normalizeNewlines given) ≠ [] := by
        rwa [hkept, kept, h, List.append_nil, hgiven] at hnil
      rw [hgiven, streamFrames, if_neg hrem]
    · have htext : normalizeNewlines given = normalizeNewlines (completeInput given) ++ [lf] := by
        have hsplit := normalizeNewlines_append (x := completeInput given) (y := [cr]) (Or.inr (by simp [cr, lf]))
        rwa [← h, completeInput_append_trailing, h] at hsplit
      rw [streamFrames, htext, complete_append (normalizeNewlines (completeInput given)) [lf],
        remainder_append (normalizeNewlines (completeInput given)) [lf], List.append_assoc, ← complete_flush hskip]

theorem decodeAgUiStream_from (chunks : List Text) : ∀ (given : Text) (state : AgUiChatEventDecoderState σ),
    state.remainder = kept given → FramesFit state.maxFrameChars (given ++ chunks.flatten) →
    ∃ frames, frameSeparator.complete (normalizeNewlines (completeInput given)) ++ frames =
        streamFrames (given ++ chunks.flatten) ∧
      decodeAgUiStream mapFrame state chunks =
        ({ state with remainder := [], delivery := (deliverFrames mapFrame state.delivery frames).1 },
          .ok (deliverFrames mapFrame state.delivery frames).2) := by
  induction chunks with
  | nil =>
    intro given state hkept hfits
    rw [List.flatten_nil, List.append_nil] at hfits ⊢
    exact flush_eq mapFrame state hkept hfits
  | cons chunk chunks ih =>
    intro given state hkept hfits
    rw [List.flatten_cons, ← List.append_assoc] at hfits ⊢
    obtain ⟨hlen, hall⟩ := kept_fits hfits
    obtain ⟨-, hcomplete⟩ := combined_chunk given chunk
    have hgiven : frameSeparator.complete (normalizeNewlines (completeInput (given ++ chunk))) =
        frameSeparator.complete (normalizeNewlines (completeInput given)) ++
          frameSeparator.complete (normalizeNewlines (completeInput (kept given ++ chunk))) := by
      rw [normalize_chunk, complete_append, hcomplete]
    have hdecode := decodeAgUiSseChunk_eq mapFrame state chunk rfl
      (show kept (given ++ chunk) = _ by rw [hkept, ← kept_chunk]) hlen (by
        intro frame hframe
        rw [hkept] at hframe
        refine hall frame ?_
        rw [hgiven]
        exact List.mem_append_right _ hframe)
    rw [hkept] at hdecode
    obtain ⟨frames, hframes, hstream⟩ := ih (given ++ chunk)
      { state with
        remainder := kept (given ++ chunk)
        delivery := (deliverFrames mapFrame state.delivery
          (frameSeparator.complete (normalizeNewlines (completeInput (kept given ++ chunk))))).1 } rfl hfits
    refine ⟨_ ++ frames, by rw [← List.append_assoc, ← hgiven, hframes], ?_⟩
    rw [decodeAgUiStream, hdecode, deliverFrames_append]
    simp only
    rw [hstream]
    rfl

/-! ## Stale frames -/

/-- The events are those of some of the frames, in order. One that has an id comes after no frame with the same or a
larger one. -/
inductive Delivered : List Int → List Text → List (AgUiDecodedEvent W) → Prop
  | nil {earlier : List Int} : Delivered earlier [] []
  | skip {earlier : List Int} {rawFrame : Text} {frames : List Text} {events : List (AgUiDecodedEvent W)} :
      Delivered (earlier ++ (parseSseEvent rawFrame).id.toList.map Int.ofNat) frames events →
      Delivered earlier (rawFrame :: frames) events
  | deliver {earlier : List Int} {rawFrame : Text} {frames : List Text} {event : AgUiDecodedEvent W}
      {events : List (AgUiDecodedEvent W)} :
      event.eventId = (parseSseEvent rawFrame).id → (∀ id ∈ event.eventId, ∀ e ∈ earlier, e < Int.ofNat id) →
      Delivered (earlier ++ (parseSseEvent rawFrame).id.toList.map Int.ofNat) frames events →
      Delivered earlier (rawFrame :: frames) (event :: events)

theorem readField_id {fields : SseFields} {line : Text} (h : line.startsWith "id:" = false) :
    (readField fields line).id = fields.id := by
  unfold readField
  rw [h]
  simp only [Bool.false_eq_true, if_false]
  split
  · rfl
  split
  · rfl
  split <;> rfl

theorem id_of_commentOnly {rawFrame : Text} (h : isCommentOnlySseFrame rawFrame = true) :
    (parseSseEvent rawFrame).id = none := by
  have key : ∀ (lines : List Text) (fields : SseFields), fields.id = none →
      (lines.all fun line => (Text.trim line).isEmpty || (Text.trimStart line).startsWith ":") = true →
      (lines.foldl readField fields).id = none := by
    intro lines
    induction lines with
    | nil => exact fun _ hnone _ => hnone
    | cons line lines ih =>
      intro fields hnone hall
      rw [List.all_cons, Bool.and_eq_true] at hall
      refine ih _ ?_ hall.2
      rw [readField_id, hnone]
      refine Bool.eq_false_iff.mpr fun hid => ?_
      obtain ⟨rest, rfl⟩ := List.isPrefixOf_iff_prefix.mp hid
      have hstart : Text.trimStart (Text.of "id:" ++ rest) = Text.of "id:" ++ rest := rfl
      obtain hblank | hcolon := Bool.or_eq_true_iff.mp hall.1
      · rw [Text.trim, hstart, List.isEmpty_iff, List.reverse_eq_nil_iff, Text.trimStart, List.dropWhile_eq_nil_iff] at hblank
        exact absurd (hblank 105 (List.mem_reverse.mpr (List.mem_cons_self ..))) (by decide)
      · rw [hstart] at hcolon
        cases hcolon
  exact key _ _ rfl h

theorem delivered_deliverFrames (frames : List Text) : ∀ (d : AgUiDelivery σ) (earlier : List Int),
    (∀ e ∈ earlier, e ≤ d.lastEventId) → Delivered earlier frames (deliverFrames mapFrame d frames).2 := by
  induction frames with
  | nil => exact fun _ _ _ => .nil
  | cons rawFrame frames ih =>
    intro d earlier hearlier
    have hstep : ∀ (d' : AgUiDelivery σ), (∀ id ∈ (parseSseEvent rawFrame).id, Int.ofNat id ≤ d'.lastEventId) →
        d.lastEventId ≤ d'.lastEventId → ∀ e ∈ earlier ++ (parseSseEvent rawFrame).id.toList.map Int.ofNat, e ≤ d'.lastEventId := by
      intro d' hid hle e he
      obtain he | he := List.mem_append.mp he
      · exact Int.le_trans (hearlier e he) hle
      · obtain ⟨id, hmem, rfl⟩ := List.mem_map.mp he
        exact hid id (by simpa using hmem)
    have hdeliver : ∀ d' : AgUiDelivery σ, (∀ id ∈ (parseSseEvent rawFrame).id, Int.ofNat id ≤ d'.lastEventId) →
        d.lastEventId ≤ d'.lastEventId → (∀ id ∈ (parseSseEvent rawFrame).id, ∀ e ∈ earlier, e < Int.ofNat id) →
        decodeFrame mapFrame d rawFrame = deliver mapFrame d' (parseSseEvent rawFrame) →
        Delivered earlier (rawFrame :: frames) (deliverFrames mapFrame d (rawFrame :: frames)).2 := by
      intro d' hid hle hnew heq
      rw [deliverFrames, heq]
      unfold deliver
      have hrest := ih { d' with mapping := (mapFrame d'.mapping (parseSseEvent rawFrame)).1 } _ (hstep d' hid hle)
      cases hmap : (mapFrame d'.mapping (parseSseEvent rawFrame)).2 with
      | none =>
        simp only [hmap]
        exact .skip hrest
      | some decoded =>
        simp only [hmap]
        exact .deliver rfl hnew hrest
    have hskip : (∀ id ∈ (parseSseEvent rawFrame).id, Int.ofNat id ≤ d.lastEventId) →
        decodeFrame mapFrame d rawFrame = (d, none) →
        Delivered earlier (rawFrame :: frames) (deliverFrames mapFrame d (rawFrame :: frames)).2 := by
      intro hid heq
      rw [deliverFrames, heq]
      exact .skip (ih d _ (hstep d hid (Int.le_refl _)))
    by_cases hcomment : isCommentOnlySseFrame rawFrame = true
    · refine hskip ?_ (by rw [decodeFrame, if_pos hcomment])
      rw [id_of_commentOnly hcomment]
      exact fun _ h => nomatch h
    · cases hid : (parseSseEvent rawFrame).id with
      | none =>
        refine hdeliver d ?_ (Int.le_refl _) ?_ (by simp only [decodeFrame, if_neg hcomment, hid])
        · rw [hid]
          exact fun _ h => nomatch h
        · rw [hid]
          exact fun _ h => nomatch h
      | some id =>
        by_cases hstale : (id : Int) ≤ d.lastEventId
        · refine hskip ?_ (by simp only [decodeFrame, if_neg hcomment, hid, if_pos hstale])
          rw [hid]
          rintro _ ⟨⟩
          exact hstale
        · refine hdeliver { d with lastEventId := id } ?_ (Int.le_of_lt (Int.lt_of_not_ge hstale)) ?_
            (by simp only [decodeFrame, if_neg hcomment, hid, if_neg hstale])
          · rw [hid]
            rintro _ ⟨⟩
            exact Int.le_refl _
          · rw [hid]
            rintro _ ⟨⟩ e he
            exact Int.lt_of_le_of_lt (hearlier e he) (Int.lt_of_not_ge hstale)

/-! ## Every cut of the text -/

/-- A decoder that starts on a text whose frames fit decodes its chunks, and flushes, to the events of the text
with LF line ends at once, without an error and with the same last id. No event has an id at or below one that came
before its frame. -/
theorem decodeAgUiStream_eq {state : AgUiChatEventDecoderState σ} (hstart : state.remainder = []) {chunks : List Text}
    (hfits : FramesFit state.maxFrameChars chunks.flatten) :
    ∃ final events, decodeAgUiStream mapFrame state chunks = (final, .ok events) ∧
      decodeAgUiStream mapFrame state [normalizeNewlines chunks.flatten] = (final, .ok events) ∧
      Delivered [state.delivery.lastEventId] (streamFrames chunks.flatten) events := by
  have htwice : normalizeNewlines (normalizeNewlines chunks.flatten) = normalizeNewlines chunks.flatten :=
    normalizeNewlines_of_no_cr (cr_notMem_normalizeNewlines _)
  obtain ⟨frames, hframes, hstream⟩ := decodeAgUiStream_from mapFrame chunks [] state hstart hfits
  obtain ⟨frames', hframes', hstream'⟩ := decodeAgUiStream_from mapFrame [normalizeNewlines chunks.flatten] [] state hstart (by
    simpa [FramesFit, htwice] using hfits)
  obtain rfl : frames = streamFrames chunks.flatten := hframes
  obtain rfl : frames' = streamFrames chunks.flatten := by
    refine hframes'.trans ?_
    rw [List.nil_append, List.flatten_singleton, streamFrames, htwice, ← streamFrames]
  refine ⟨_, _, hstream, hstream', delivered_deliverFrames mapFrame _ _ _ ?_⟩
  intro e he
  obtain rfl := List.mem_singleton.mp he
  exact Int.le_refl _

end Decode

/-- Two frames with one id and line ends of all kinds, cut within a CRLF and before a blank line. -/
theorem decodeAgUiStream_eq_mixed :
    let state : AgUiChatEventDecoderState Nat := ⟨[], 16, by decide, -1, 0⟩
    let mapFrame : FrameMapping Nat Text := fun n frame => (n + 1, some frame.data)
    let chunks : List Text := [.of "id:4\r", .of "\ndata:a\n\r", .of "\nid:4\rdata:b"]
    ∃ final events, decodeAgUiStream mapFrame state chunks = (final, .ok events) ∧
      decodeAgUiStream mapFrame state [normalizeNewlines chunks.flatten] = (final, .ok events) ∧
      Delivered [-1] (streamFrames chunks.flatten) events := by
  intro state mapFrame chunks
  refine decodeAgUiStream_eq mapFrame rfl ?_
  unfold FramesFit
  decide

end Veryfront.Chat
