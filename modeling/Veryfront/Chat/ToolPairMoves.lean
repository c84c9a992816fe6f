import Mathlib.Data.List.Nodup
import Mathlib.Data.List.Perm.Subperm
import Veryfront.Chat.ToolPairRepair

/-!
# The results that are moved

Moving results only takes results of the wanted calls out of tool messages of the turn, one result for each call that has
any. Messages that have nothing left go, and nothing else changes.
-/

namespace Veryfront.Chat.ToolPairs

variable {π : Type} {wanted : List Text} {moved : MovedResults π} {parts : List (Part π)} {m m' : ProviderModelMessage π}
  {ms ms' : List (ProviderModelMessage π)}

def reachable : List (ProviderModelMessage π) → Text → Bool
  | [], _ => false
  | m :: ms, id => !startsTurn m && (decide (m.role = .tool) && holdsResult m.parts id || reachable ms id)

@[simp] theorem copy_role (source target : ProviderModelMessage π) :
    (copyProviderModelMessageSourceId source target).role = target.role := by
  unfold copyProviderModelMessageSourceId
  split
  · split <;> rfl
  · rfl

@[simp] theorem copy_content (source target : ProviderModelMessage π) :
    (copyProviderModelMessageSourceId source target).content = target.content := by
  unfold copyProviderModelMessageSourceId
  split
  · split <;> rfl
  · rfl

@[simp] theorem copy_parts (source target : ProviderModelMessage π) :
    (copyProviderModelMessageSourceId source target).parts = target.parts := by
  simp [ProviderModelMessage.parts]

theorem parts_eq_nil (h : m.isList = false) : m.parts = [] := by
  unfold ProviderModelMessage.isList at h
  unfold ProviderModelMessage.parts
  cases hcontent : m.content with
  | text value => rfl
  | parts parts =>
    rw [hcontent] at h
    cases h

variable {id : Text}

theorem holdsResult_iff : holdsResult parts id = true ↔ ∃ part ∈ parts, part.resultId = some id := by
  simp [holdsResult]

@[simp] theorem holdsResult_nil (id : Text) : holdsResult ([] : List (Part π)) id = false := rfl

theorem holdsResult_append (parts parts' : List (Part π)) (id : Text) :
    holdsResult (parts ++ parts') id = (holdsResult parts id || holdsResult parts' id) := List.any_append

theorem holdsResult_perm {parts' : List (Part π)} (h : parts.Perm parts') (id : Text) :
    holdsResult parts id = holdsResult parts' id := by
  rw [Bool.eq_iff_iff, holdsResult_iff, holdsResult_iff]
  simp only [h.mem_iff]

theorem not_startsTurn (h : m.role = .tool) : startsTurn m = false := by simp [startsTurn, h]

theorem reachable_tool (h : m.role = .tool) (id : Text) :
    reachable (m :: ms) id = (holdsResult m.parts id || reachable ms id) := by
  simp [reachable, not_startsTurn h, h]

theorem reachable_pass (h : m.role ≠ .tool ∨ m.isList = false) (hturn : startsTurn m = false) (id : Text) :
    reachable (m :: ms) id = reachable ms id := by
  rcases h with h | h
  · simp [reachable, hturn, h]
  · simp [reachable, hturn, parts_eq_nil h]

theorem hasImmediateToolResult_iff :
    hasImmediateToolResult ms.head? id = true ↔ ∃ m ∈ ms.head?, m.role = .tool ∧ holdsResult m.parts id = true := by
  cases ms <;> simp [hasImmediateToolResult]

theorem reachable_of_immediate (h : hasImmediateToolResult ms.head? id = true) : reachable ms id = true := by
  obtain ⟨m, hm, hrole, hholds⟩ := hasImmediateToolResult_iff.mp h
  cases ms with
  | nil => cases hm
  | cons next rest =>
    obtain rfl : next = m := by simpa using hm
    rw [reachable_tool hrole, hholds, Bool.true_or]

/-! ## The results that were found -/

theorem MovedResults.has_iff : moved.has id = true ↔ id ∈ moved.map (·.1) := by
  simp [MovedResults.has]

structure Collected (wanted : List Text) (moved : MovedResults π) : Prop where
  once : (moved.map (·.1)).Nodup
  results : ∀ entry ∈ moved, entry.1 ∈ wanted ∧ entry.2.resultId = some entry.1

theorem Collected.nil (wanted : List Text) : Collected wanted ([] : MovedResults π) :=
  ⟨List.nodup_nil, fun _ h => absurd h List.not_mem_nil⟩

theorem Collected.snoc (h : Collected wanted moved) {part : Part π} (hid : part.resultId = some id)
    (hwanted : id ∈ wanted) (hnew : moved.has id = false) : Collected wanted (moved ++ [(id, part)]) where
  once := by
    rw [List.map_append, List.nodup_append]
    refine ⟨h.once, List.nodup_singleton _, fun a ha b hb => ?_⟩
    obtain rfl : b = id := by simpa using hb
    rintro rfl
    rw [MovedResults.has_iff.mpr ha] at hnew
    cases hnew
  results entry hentry := by
    rcases List.mem_append.mp hentry with hentry | hentry
    · exact h.results entry hentry
    · obtain rfl := List.mem_singleton.mp hentry
      exact ⟨hwanted, hid⟩

theorem Collected.all (h : Collected wanted moved) (hlength : wanted.length ≤ moved.length) (hid : id ∈ wanted) :
    moved.has id = true := by
  have hsub : moved.map (·.1) ⊆ wanted := by
    intro x hx
    obtain ⟨entry, hentry, rfl⟩ := List.mem_map.mp hx
    exact (h.results entry hentry).1
  have hperm := (List.subperm_of_subset h.once hsub).perm_of_length_le (by simpa using hlength)
  exact MovedResults.has_iff.mpr (hperm.mem_iff.mpr hid)

theorem Collected.get (h : Collected wanted moved) {entry : Text × Part π} (hentry : entry ∈ moved) :
    moved.get entry.1 = some entry.2 := by
  have hfind : moved.find? (·.1 = entry.1) = some entry := by
    obtain ⟨other, hother⟩ := Option.isSome_iff_exists.mp
      (List.find?_isSome.mpr ⟨entry, hentry, by simp⟩ : (moved.find? (·.1 = entry.1)).isSome)
    have hsame : other.1 = entry.1 := by simpa using List.find?_some hother
    rw [hother, List.inj_on_of_nodup_map h.once (List.mem_of_find?_eq_some hother) hentry hsame]
  rw [MovedResults.get, hfind, Option.map_some]

theorem Collected.get_resultId (h : Collected wanted moved) {part : Part π} (hget : moved.get id = some part) :
    part.resultId = some id := by
  obtain ⟨entry, hfind, rfl⟩ := Option.map_eq_some_iff.mp hget
  have hid : entry.1 = id := by simpa using List.find?_some hfind
  rw [(h.results entry (List.mem_of_find?_eq_some hfind)).2, hid]

theorem takeResults_spec (h : Collected wanted moved) (parts : List (Part π)) :
    ∃ found, (takeResults wanted moved parts).1 = moved ++ found ∧ Collected wanted (moved ++ found) ∧
      parts.Perm (found.map (·.2) ++ (takeResults wanted moved parts).2) ∧ (takeResults wanted moved parts).2.Sublist parts ∧
      ∀ id ∈ wanted, (moved ++ found).has id = (moved.has id || holdsResult parts id) := by
  induction parts generalizing moved with
  | nil => exact ⟨[], by simp [takeResults], by simpa using h, .nil, .slnil, by simp⟩
  | cons part parts ih =>
    rw [takeResults]
    cases hid : part.resultId with
    | none =>
      obtain ⟨found, hmoved, hcollected, hperm, hsub, hhas⟩ := ih h
      refine ⟨found, hmoved, hcollected, ?_, hsub.cons_cons part, fun id hwanted => ?_⟩
      · exact (hperm.cons part).trans List.perm_middle.symm
      · rw [hhas id hwanted]
        simp [holdsResult, hid]
    | some id =>
      simp only
      split
      · rename_i hskip
        obtain ⟨found, hmoved, hcollected, hperm, hsub, hhas⟩ := ih h
        refine ⟨found, hmoved, hcollected, ?_, hsub.cons_cons part, fun other hwanted => ?_⟩
        · exact (hperm.cons part).trans List.perm_middle.symm
        · rw [hhas other hwanted, holdsResult, holdsResult, List.any_cons, hid]
          rcases hskip with hskip | hskip
          · have hne : id ≠ other := fun heq => hskip (heq ▸ hwanted)
            simp [hne]
          · by_cases heq : id = other
            · simp [← heq, hskip]
            · simp [heq]
      · rename_i htake
        obtain ⟨hwanted, hnew⟩ := not_or.mp htake
        have hwanted := not_not.mp hwanted
        obtain ⟨found, hmoved, hcollected, hperm, hsub, hhas⟩ := ih (h.snoc hid hwanted (Bool.eq_false_iff.mpr hnew))
        rw [List.append_assoc] at hmoved hcollected hhas
        refine ⟨(id, part) :: found, hmoved, hcollected, hperm.cons part, hsub.cons part, fun other hother => ?_⟩
        have hgrown := hhas other hother
        simp only [List.singleton_append] at hgrown
        rw [hgrown]
        simp [MovedResults.has, holdsResult, hid, Bool.or_assoc]

/-! ## The messages that are left -/

/-- What moving results does to the messages: `found` are the results that are taken out. -/
inductive Thinned : List Text → List (ProviderModelMessage π) → List (ProviderModelMessage π) → List (Part π) → Prop
  | nil {wanted : List Text} : Thinned wanted [] [] []
  | turn {wanted : List Text} {m : ProviderModelMessage π} {ms : List (ProviderModelMessage π)} (hturn : startsTurn m = true) :
      Thinned wanted (m :: ms) (m :: ms) []
  | pass {wanted : List Text} {m : ProviderModelMessage π} {ms ms' : List (ProviderModelMessage π)} {found : List (Part π)}
      (hpass : m.role ≠ .tool ∨ m.isList = false) (hturn : startsTurn m = false) (hrest : Thinned wanted ms ms' found) :
      Thinned wanted (m :: ms) (m :: ms') found
  | thin {wanted : List Text} {m m' : ProviderModelMessage π} {ms ms' : List (ProviderModelMessage π)}
      {taken found : List (Part π)} (hrole : m.role = .tool) (hlist : m.isList = true) (hrole' : m'.role = .tool)
      (hlist' : m'.isList = true) (hperm : m.parts.Perm (taken ++ m'.parts)) (hsub : m'.parts.Sublist m.parts)
      (htaken : ∀ part ∈ taken, ∃ id ∈ wanted, part.resultId = some id) (hsame : taken = [] → m' = m)
      (hrest : Thinned (wanted.filter (!holdsResult m.parts ·)) ms ms' found) :
      Thinned wanted (m :: ms) (m' :: ms') (taken ++ found)
  | drop {wanted : List Text} {m : ProviderModelMessage π} {ms ms' : List (ProviderModelMessage π)}
      {taken found : List (Part π)} (hrole : m.role = .tool) (hlist : m.isList = true) (hperm : m.parts.Perm taken)
      (hne : m.parts ≠ []) (htaken : ∀ part ∈ taken, ∃ id ∈ wanted, part.resultId = some id)
      (hrest : Thinned (wanted.filter (!holdsResult m.parts ·)) ms ms' found) :
      Thinned wanted (m :: ms) ms' (taken ++ found)

theorem Thinned.refl (wanted : List Text) (ms : List (ProviderModelMessage π)) : Thinned wanted ms ms [] := by
  induction ms generalizing wanted with
  | nil => exact .nil
  | cons m ms ih =>
    by_cases hturn : startsTurn m = true
    · exact .turn hturn
    have hturn := Bool.eq_false_iff.mpr hturn
    by_cases htool : m.role = .tool ∧ m.isList = true
    · exact .thin htool.1 htool.2 htool.1 htool.2 (.refl _) (List.Sublist.refl _) (fun _ h => absurd h List.not_mem_nil)
        (fun _ => rfl) (ih _)
    · refine .pass ?_ hturn (ih wanted)
      rw [← Bool.not_eq_true]
      exact Decidable.not_and_iff_or_not.mp htool

theorem moveResults_spec (h : Collected wanted moved) (ms : List (ProviderModelMessage π)) :
    ∃ found, (moveResults wanted moved ms).1 = moved ++ found ∧ Collected wanted (moved ++ found) ∧
      Thinned (wanted.filter (!moved.has ·)) ms (moveResults wanted moved ms).2 (found.map (·.2)) ∧
      ∀ id ∈ wanted, (moved ++ found).has id = (moved.has id || reachable ms id) := by
  induction ms generalizing moved with
  | nil => exact ⟨[], by simp [moveResults], by simpa using h, .nil, by simp [reachable]⟩
  | cons m ms ih =>
    rw [moveResults]
    split
    · rename_i hstop
      refine ⟨[], by simp, by simpa using h, .refl _ _, fun id hid => ?_⟩
      rw [List.append_nil]
      rcases hstop with hfull | hturn
      · rw [h.all hfull hid, Bool.true_or]
      · simp [reachable, hturn]
    · rename_i hgo
      have hturn : startsTurn m = false := Bool.eq_false_iff.mpr fun hturn => hgo (.inr hturn)
      split
      · rename_i hpass
        have hpass : m.role ≠ .tool ∨ m.isList = false := hpass.imp_right Bool.eq_false_iff.mpr
        obtain ⟨found, hmoved, hcollected, hthin, hhas⟩ := ih h
        refine ⟨found, hmoved, hcollected, .pass hpass hturn hthin, fun id hid => ?_⟩
        rw [hhas id hid, reachable_pass hpass hturn]
      · rename_i hlist
        obtain ⟨hrole, hlist⟩ := not_or.mp hlist
        have hrole := not_not.mp hrole
        have hlist := not_not.mp hlist
        obtain ⟨taken, htake, hcollected, hperm, hsub, hhas⟩ := takeResults_spec h m.parts
        obtain ⟨found, hmoved, hcollected', hthin, hhas'⟩ := ih hcollected
        rw [List.append_assoc] at hmoved hcollected' hhas'
        -- the calls whose results are still to be found
        have hleft : wanted.filter (fun id => !(moved ++ taken).has id) =
            (wanted.filter (!moved.has ·)).filter (!holdsResult m.parts ·) := by
          rw [List.filter_filter]
          exact List.filter_congr fun id hid => by simp [hhas id hid, Bool.and_comm]
        have htaken : ∀ part ∈ taken.map (·.2), ∃ id ∈ wanted.filter (!moved.has ·), part.resultId = some id := by
          intro part hpart
          obtain ⟨entry, hentry, rfl⟩ := List.mem_map.mp hpart
          obtain ⟨hid, hresult⟩ := hcollected.results entry (List.mem_append_right _ hentry)
          refine ⟨entry.1, List.mem_filter.mpr ⟨hid, ?_⟩, hresult⟩
          have hnot : entry.1 ∉ moved.map (·.1) := by
            have honce := hcollected.once
            rw [List.map_append] at honce
            exact fun hmem => (List.disjoint_of_nodup_append honce) hmem (List.mem_map_of_mem hentry)
          simpa [← MovedResults.has_iff] using hnot
        have hreach : ∀ id ∈ wanted, (moved ++ (taken ++ found)).has id = (moved.has id || reachable (m :: ms) id) := by
          intro id hid
          rw [hhas' id hid, hhas id hid, reachable_tool hrole, Bool.or_assoc]
        rw [hleft] at hthin
        simp only [htake]
        split
        · rename_i hlength
          have hnone : taken.map (·.2) = [] := by
            have := hperm.length_eq
            rw [List.length_append, hlength] at this
            exact List.length_eq_zero_iff.mp (by omega)
          refine ⟨taken ++ found, hmoved, hcollected', ?_, hreach⟩
          rw [List.map_append]
          refine .thin hrole hlist hrole hlist ?_ (List.Sublist.refl _) htaken (fun _ => rfl) hthin
          rw [hnone, List.nil_append]
        · rename_i hlength
          split
          · rename_i hempty
            refine ⟨taken ++ found, hmoved, hcollected', ?_, hreach⟩
            rw [List.length_eq_zero_iff.mp hempty, List.append_nil] at hperm
            rw [List.map_append]
            refine .drop hrole hlist hperm (fun hnil => hlength ?_) htaken hthin
            rw [hempty, hnil, List.length_nil]
          · refine ⟨taken ++ found, hmoved, hcollected', ?_, hreach⟩
            rw [List.map_append]
            refine .thin hrole hlist (by simp) (by simp [ProviderModelMessage.isList]) ?_ ?_ htaken (fun hnone => ?_) hthin
            · rw [copy_parts]
              exact hperm
            · rw [copy_parts]
              exact hsub
            · rw [hnone, List.nil_append] at hperm
              exact absurd hperm.length_eq.symm hlength

theorem moveResultsBehind_spec (himmediate : ∀ id ∈ wanted, hasImmediateToolResult ms.head? id = false) :
    Collected wanted (moveResultsBehind wanted ms).1 ∧
      Thinned wanted ms (moveResultsBehind wanted ms).2 ((moveResultsBehind wanted ms).1.map (·.2)) ∧
      (∀ id ∈ wanted, (moveResultsBehind wanted ms).1.has id = reachable ms id) ∧
      (moveResultsBehind wanted ms).2.head? = ms.head? := by
  cases ms with
  | nil => exact ⟨.nil _, .nil, fun _ _ => rfl, rfl⟩
  | cons next ms =>
    rw [moveResultsBehind]
    split
    · rename_i hturn
      exact ⟨.nil _, .turn hturn, fun id _ => by simp [MovedResults.has, reachable, hturn], rfl⟩
    · rename_i hturn
      have hturn := Bool.eq_false_iff.mpr hturn
      obtain ⟨found, hmoved, hcollected, hthin, hhas⟩ := moveResults_spec (Collected.nil wanted) ms
      rw [List.nil_append] at hmoved hcollected hhas
      have hall : wanted.filter (fun id => !MovedResults.has ([] : MovedResults π) id) = wanted :=
        List.filter_eq_self.mpr fun _ _ => rfl
      rw [hall] at hthin
      simp only [hmoved]
      by_cases htool : next.role = .tool ∧ next.isList = true
      · have hnone : ∀ id ∈ wanted, holdsResult next.parts id = false := by
          intro id hid
          have := himmediate id hid
          simpa [hasImmediateToolResult, htool.1] using this
        refine ⟨hcollected, ?_, fun id hid => ?_, rfl⟩
        · have hrest : Thinned (wanted.filter (!holdsResult next.parts ·)) ms (moveResults wanted [] ms).2 (found.map (·.2)) := by
            rwa [List.filter_eq_self.mpr fun id hid => by rw [hnone id hid]; rfl]
          exact .thin htool.1 htool.2 htool.1 htool.2 (.refl _) (List.Sublist.refl _)
            (fun _ h => absurd h List.not_mem_nil) (fun _ => rfl) hrest
        · rw [hhas id hid, reachable_tool htool.1, hnone id hid]
          rfl
      · have hpass : next.role ≠ .tool ∨ next.isList = false := by
          rw [← Bool.not_eq_true]
          exact Decidable.not_and_iff_or_not.mp htool
        refine ⟨hcollected, .pass hpass hturn hthin, fun id hid => ?_, rfl⟩
        rw [hhas id hid, reachable_pass hpass hturn]
        rfl

end Veryfront.Chat.ToolPairs
