import Mathlib.Data.List.Sort
import Veryfront.Lib.ListUpdate

/-!
# The first match by falling rank

Records arrive one after the other and are kept by falling rank, those of equal rank as they arrived. The first
match in this order is the one that leads the matches: nothing that came before it has its rank or a higher one,
and nothing that came after it has a higher one.
-/

namespace Veryfront.Lib

variable {α β : Type*} [LinearOrder β] (rank : α → β)

/-- Stable, as equal ranks stay in order. -/
def byRank (l : List α) : List α := l.insertionSort fun a b => rank b ≤ rank a

/-- The records of `l` by falling rank. -/
structure Ranked (l sorted : List α) : Prop where
  falling : sorted.Pairwise fun a b => rank b ≤ rank a
  stable : ∀ k, (sorted.filter fun a => rank a = k) = l.filter fun a => rank a = k

/-- The match that comes first when the records are ranked. -/
def Leads (p : α → Bool) (l : List α) (a : α) : Prop :=
  ∃ before after, l = before ++ a :: after ∧ p a = true ∧
    (∀ b ∈ before, p b = true → rank b < rank a) ∧ ∀ b ∈ after, p b = true → rank b ≤ rank a

variable {rank}

/-! ## Sorting -/

theorem filter_orderedInsert (k : β) (a : α) (l : List α) :
    ((l.orderedInsert (fun a b => rank b ≤ rank a) a).filter fun b => rank b = k) =
      (a :: l).filter fun b => rank b = k := by
  induction l with
  | nil => rfl
  | cons b l ih =>
    rw [List.orderedInsert_cons]
    split
    · rfl
    · rename_i hlt
      have hne : ¬ (rank a = k ∧ rank b = k) := fun h => hlt (le_of_eq (h.2.trans h.1.symm))
      rw [List.filter_cons, ih, List.filter_cons, List.filter_cons, List.filter_cons]
      by_cases hb : rank b = k
      · have ha : ¬ rank a = k := fun ha => hne ⟨ha, hb⟩
        simp [ha, hb]
      · simp [hb]

variable {a : α} {l : List α}

theorem filter_insertBefore (h : l.Pairwise fun a b => rank b ≤ rank a) (k : β) :
    ((insertBefore (fun b => decide (rank b < rank a)) a l).filter fun b => rank b = k) =
      (l.filter fun b => rank b = k) ++ [a].filter fun b => rank b = k := by
  induction l with
  | nil => rfl
  | cons b l ih =>
    obtain ⟨hb, hl⟩ := List.pairwise_cons.mp h
    rw [insertBefore]
    split
    · rename_i hlt
      have hlow : ∀ c ∈ b :: l, rank c < rank a := by
        intro c hc
        rcases List.mem_cons.mp hc with rfl | hc
        · exact of_decide_eq_true hlt
        · exact lt_of_le_of_lt (hb c hc) (of_decide_eq_true hlt)
      by_cases hk : rank a = k
      · have hnone : ((b :: l).filter fun c => rank c = k) = [] := by
          rw [List.filter_eq_nil_iff]
          intro c hc
          simpa using ne_of_lt (hk ▸ hlow c hc)
        rw [List.filter_cons_of_pos (by simpa using hk), hnone, List.filter_cons_of_pos (by simpa using hk)]
        rfl
      · have hlone : ([a].filter fun c => rank c = k) = [] := by simp [hk]
        rw [hlone, List.append_nil, List.filter_cons_of_neg (by simpa using hk)]
    · rw [List.filter_cons, List.filter_cons, ih hl]
      split
      · rfl
      · rfl

theorem byRank_ranked (l : List α) : Ranked rank l (byRank rank l) where
  falling := by
    have : Std.Total fun a b : α => rank b ≤ rank a := ⟨fun a b => le_total (rank b) (rank a)⟩
    have : IsTrans α fun a b => rank b ≤ rank a := ⟨fun a b c hab hbc => le_trans hbc hab⟩
    exact List.pairwise_insertionSort _ l
  stable k := by
    induction l with
    | nil => rfl
    | cons a l ih =>
      unfold byRank at ih ⊢
      rw [List.insertionSort_cons, filter_orderedInsert, List.filter_cons, List.filter_cons, ih]

namespace Ranked

variable {l sorted : List α}

theorem nil : Ranked rank [] [] := ⟨List.Pairwise.nil, fun _ => rfl⟩

theorem push (h : Ranked rank l sorted) (a : α) : Ranked rank (l ++ [a]) (byRank rank (sorted ++ [a])) where
  falling := (byRank_ranked (sorted ++ [a])).falling
  stable k := by rw [(byRank_ranked (sorted ++ [a])).stable k, List.filter_append, List.filter_append, h.stable k]

theorem perm [DecidableEq α] (h : Ranked rank l sorted) : sorted.Perm l := by
  rw [List.perm_iff_count]
  intro a
  have hcount : ∀ l : List α, (l.filter fun b => rank b = rank a).count a = l.count a :=
    fun l => List.count_filter (by simp)
  rw [← hcount sorted, h.stable (rank a), hcount l]

theorem insertBefore (h : Ranked rank l sorted) (a : α) :
    Ranked rank (l ++ [a]) (Lib.insertBefore (fun b => decide (rank b < rank a)) a sorted) where
  falling := by
    have : IsTrans α fun a b => rank b ≤ rank a := ⟨fun a b c hab hbc => le_trans hbc hab⟩
    refine pairwise_insertBefore h.falling ?_ ?_
    · intro b _ hb
      exact le_of_lt (of_decide_eq_true hb)
    · intro b _ hb
      exact not_lt.mp (of_decide_eq_false hb)
  stable k := by rw [filter_insertBefore h.falling, List.filter_append, h.stable k]

theorem erase [DecidableEq α] (h : Ranked rank l (a :: sorted)) : Ranked rank (l.erase a) sorted where
  falling := (List.pairwise_cons.mp h.falling).2
  stable k := by
    rw [← List.erase_filter, ← h.stable k, List.filter_cons]
    split
    · rw [List.erase_cons_head]
    · rename_i hk
      refine (List.erase_of_not_mem ?_).symm
      intro hmem
      exact hk (List.mem_filter.mp hmem).2

theorem filter (h : Ranked rank l sorted) (p : α → Bool) : Ranked rank (l.filter p) (sorted.filter p) where
  falling := h.falling.filter p
  stable k := by
    have hcomm : ∀ l : List α, ((l.filter p).filter fun a => rank a = k) = (l.filter fun a => rank a = k).filter p :=
      fun l => by simp only [List.filter_filter, Bool.and_comm]
    rw [hcomm, hcomm, h.stable k]

theorem mem_iff (h : Ranked rank l sorted) (a : α) : a ∈ sorted ↔ a ∈ l := by
  have hmem := congrArg (a ∈ ·) (h.stable (rank a))
  simpa using hmem

end Ranked

/-! ## The leader -/

variable {p : α → Bool}

theorem Leads.mem (h : Leads rank p l a) : a ∈ l := by
  obtain ⟨before, after, rfl, -⟩ := h
  exact List.mem_append_right before List.mem_cons_self

theorem Leads.holds (h : Leads rank p l a) : p a = true := by
  obtain ⟨-, -, -, hp, -⟩ := h
  exact hp

theorem Leads.rank_le {b : α} (h : Leads rank p l a) (hb : b ∈ l) (hp : p b = true) :
    rank b ≤ rank a := by
  obtain ⟨before, after, rfl, -, hbefore, hafter⟩ := h
  rcases List.mem_append.mp hb with hb | hb
  · exact le_of_lt (hbefore b hb hp)
  · rcases List.mem_cons.mp hb with rfl | hb
    · exact le_refl _
    · exact hafter b hb hp

namespace Ranked

variable {l sorted : List α} {p : α → Bool}

theorem leads_of_find? (h : Ranked rank l sorted) (ha : sorted.find? p = some a) : Leads rank p l a := by
  obtain ⟨hpa, higher, lower, rfl, hhigher⟩ := List.find?_eq_some_iff_append.mp ha
  obtain ⟨-, hlower, -⟩ := List.pairwise_append.mp h.falling
  -- Among the records of its rank, `a` comes after matches of a higher place only, of which there are none.
  have hsame := h.stable (rank a)
  rw [List.filter_append, List.filter_cons_of_pos (by simp)] at hsame
  obtain ⟨before, rest, rfl, hbefore, hrest⟩ := List.filter_eq_append_iff.mp hsame.symm
  obtain ⟨between, after, rfl, hbetween, -, -⟩ := List.filter_eq_cons_iff.mp hrest
  have hnone : ∀ b ∈ before ++ between, p b = true → rank b ≠ rank a := by
    intro b hb hp heq
    rcases List.mem_append.mp hb with hb | hb
    · have : b ∈ higher.filter fun c => rank c = rank a := hbefore ▸ List.mem_filter.mpr ⟨hb, by simpa using heq⟩
      exact absurd hp (by simpa using hhigher b (List.mem_filter.mp this).1)
    · exact hbetween b hb (by simpa using heq)
  have hle : ∀ b ∈ before ++ (between ++ a :: after), p b = true → rank b ≤ rank a := by
    intro b hb hp
    rcases List.mem_append.mp ((h.mem_iff b).mpr hb) with hb | hb
    · exact absurd hp (by simpa using hhigher b hb)
    · rcases List.mem_cons.mp hb with rfl | hb
      · exact le_refl _
      · exact (List.pairwise_cons.mp hlower).1 b hb
  refine ⟨before ++ between, after, by rw [List.append_assoc], hpa, ?_, ?_⟩
  · intro b hb hp
    refine lt_of_le_of_ne (hle b ?_ hp) (hnone b hb hp)
    rw [← List.append_assoc]
    exact List.mem_append_left _ hb
  · intro b hb hp
    exact hle b (by simp [hb]) hp

theorem find?_eq_none_iff (h : Ranked rank l sorted) : sorted.find? p = none ↔ ∀ a ∈ l, p a = false := by
  rw [List.find?_eq_none]
  constructor
  · intro hno a ha
    simpa using hno a ((h.mem_iff a).mpr ha)
  · intro hno a ha
    simpa using hno a ((h.mem_iff a).mp ha)

end Ranked

theorem Leads.position {before after : List α} {b : α} (h : Leads rank p (before ++ b :: after) a)
    (hp : p b = true) : (a ∈ before ∧ rank b ≤ rank a) ∨ a = b ∨ (a ∈ after ∧ rank b < rank a) := by
  have hle : rank b ≤ rank a := h.rank_le (List.mem_append_right before List.mem_cons_self) hp
  obtain ⟨before', after', hl, hpa, hbefore, -⟩ := h
  rcases List.append_eq_append_iff.mp hl with ⟨between, hbetween, hrest⟩ | ⟨between, hbetween, hrest⟩
  · cases between with
    | nil => exact .inr (.inl (List.cons.inj hrest).1.symm)
    | cons c between =>
      obtain ⟨rfl, htail⟩ := List.cons.inj hrest
      refine .inr (.inr ⟨?_, hbefore b (hbetween ▸ List.mem_append_right _ List.mem_cons_self) hp⟩)
      exact htail ▸ List.mem_append_right _ List.mem_cons_self
  · cases between with
    | nil => exact .inr (.inl (List.cons.inj hrest).1)
    | cons c between =>
      obtain ⟨rfl, -⟩ := List.cons.inj hrest
      exact .inl ⟨hbetween ▸ List.mem_append_right _ List.mem_cons_self, hle⟩

theorem Leads.unique {b : α} (ha : Leads rank p l a) (hb : Leads rank p l b) : a = b := by
  have hpa : p a = true := ha.holds
  obtain ⟨before, after, rfl, hpb, hbefore, hafter⟩ := hb
  rcases ha.position hpb with ⟨hmem, hle⟩ | heq | ⟨hmem, hlt⟩
  · exact absurd (hbefore a hmem hpa) (not_lt.mpr hle)
  · exact heq
  · exact absurd hlt (not_lt.mpr (hafter a hmem hpa))

theorem Ranked.find?_eq_some_iff {sorted : List α} (h : Ranked rank l sorted) :
    sorted.find? p = some a ↔ Leads rank p l a := by
  constructor
  · exact h.leads_of_find?
  · intro ha
    cases hfind : sorted.find? p with
    | none => exact absurd ha.holds (by simpa using h.find?_eq_none_iff.mp hfind a ha.mem)
    | some b => exact congrArg some ((h.leads_of_find? hfind).unique ha)

end Veryfront.Lib
