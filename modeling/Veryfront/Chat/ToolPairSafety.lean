import Mathlib.Algebra.Order.Group.Multiset
import Mathlib.Tactic.Abel
import Veryfront.Chat.ToolPairMoves

/-!
# What the repair of tool pairs does

Every call has its result beside it in the end, no part is lost, and only the results of calls of the client are moved. A
placeholder stands for a result that is nowhere in the turn, but also for that of a call of the provider that stands in a
later message.
-/

namespace Veryfront.Chat.ToolPairs

variable {π : Type} {wanted : List Text} {m m' : ProviderModelMessage π} {ms ms' rest : List (ProviderModelMessage π)}
  {found : List (Part π)}

/-! ## Calls and their results -/

def ProviderModelMessage.calls (message : ProviderModelMessage π) (providerExecuted : Bool) : List ToolCall :=
  if message.role = .assistant then toolCalls providerExecuted message.parts else []

def ProviderModelMessage.allCalls (message : ProviderModelMessage π) : List ToolCall :=
  message.calls true ++ message.calls false

def callIds (messages : List (ProviderModelMessage π)) : List Text := (messages.flatMap (·.allCalls)).map (·.id)

def partsOf (messages : List (ProviderModelMessage π)) : List (Part π) := messages.flatMap (·.parts)

def Paired : List (ProviderModelMessage π) → Prop
  | [] => True
  | m :: rest =>
    (∀ call ∈ m.allCalls, holdsResult m.parts call.id = true ∨ hasImmediateToolResult rest.head? call.id = true) ∧ Paired rest

def orphans : List (ProviderModelMessage π) → List ToolCall
  | [] => []
  | m :: rest => (m.allCalls.filter fun call => !holdsResult m.parts call.id && !reachable rest call.id) ++ orphans rest

/-- The messages that need no repair. `waiting` are the calls further up whose results are not beside them, and `asked`
says that the next tool message takes such results in. -/
def intact : (waiting : List Text) → (asked : Bool) → List (ProviderModelMessage π) → List (ProviderModelMessage π)
  | _, _, [] => []
  | waiting, asked, m :: rest =>
    if startsTurn m then m :: intact [] false rest
    else if m.role = .tool ∧ m.isList then
      let waiting' := waiting.filter (!holdsResult m.parts ·)
      if waiting.any (holdsResult m.parts ·) then
        -- it gives results away, and goes when it has nothing else
        intact waiting' (asked && m.parts.all fun part => part.resultId.any (· ∈ waiting)) rest
      else if asked then intact waiting' false rest
      else m :: intact waiting' false rest
    else
      let unresolved := (m.calls false).filter fun call =>
        !holdsResult m.parts call.id && !hasImmediateToolResult rest.head? call.id
      let rest' := intact (unresolved.map (·.id) ++ waiting) (!unresolved.isEmpty) rest
      if (m.calls true).any fun call => !holdsResult m.parts call.id && !hasImmediateToolResult rest.head? call.id then rest'
      else m :: rest'

/-- What is asked of the repair: `kept` keep their order, `moved` are results of the client's calls, and `synthetic` are
the placeholders. -/
structure Repaired (messages output : List (ProviderModelMessage π)) : Prop where
  paired : Paired output
  parts : ∃ kept moved synthetic, (partsOf messages).Perm (kept ++ moved) ∧ kept.Sublist (partsOf messages) ∧
    kept.Sublist (partsOf output) ∧ (partsOf output).Perm (kept ++ moved ++ synthetic) ∧
    (∀ part ∈ moved, ∃ call ∈ messages.flatMap (·.calls false), part.resultId = some call.id) ∧
    ∀ part ∈ synthetic, ∃ call ∈ orphans messages, part = createSyntheticToolResult call.id call.toolName
  unchanged : (intact [] false messages).Sublist output
  stable : repairToolPairs output = output

/-- The messages that the loop comes to, each with those that follow at that time. -/
def visits : (fuel : Nat) → List (ProviderModelMessage π) → List (ProviderModelMessage π × List (ProviderModelMessage π))
  | 0, _ => []
  | _ + 1, [] => []
  | fuel + 1, message :: rest => (message, rest) :: visits fuel (repairMessage [] message rest).rest

def strands (visit : ProviderModelMessage π × List (ProviderModelMessage π)) : List ToolCall :=
  (visit.1.calls true).filter fun call =>
    !holdsResult visit.1.parts call.id && !hasImmediateToolResult visit.2.head? call.id && reachable visit.2 call.id

theorem calls_of_not_assistant (h : m.role ≠ .assistant) (providerExecuted : Bool) : m.calls providerExecuted = [] := if_neg h

theorem calls_of_not_list (h : m.isList = false) (providerExecuted : Bool) : m.calls providerExecuted = [] := by
  unfold ProviderModelMessage.calls
  split
  · rw [parts_eq_nil h]
    rfl
  · rfl

theorem allCalls_of_skipped (h : m.role ≠ .assistant ∨ m.isList = false) : m.allCalls = [] := by
  rcases h with h | h
  · rw [ProviderModelMessage.allCalls, calls_of_not_assistant h, calls_of_not_assistant h, List.append_nil]
  · rw [ProviderModelMessage.allCalls, calls_of_not_list h, calls_of_not_list h, List.append_nil]

theorem allCalls_tool (h : m.role = .tool) : m.allCalls = [] := allCalls_of_skipped (.inl (by simp [h]))

theorem callIds_cons (m : ProviderModelMessage π) (rest : List (ProviderModelMessage π)) :
    callIds (m :: rest) = m.allCalls.map (·.id) ++ callIds rest := by
  simp [callIds]

theorem partsOf_cons (m : ProviderModelMessage π) (rest : List (ProviderModelMessage π)) :
    partsOf (m :: rest) = m.parts ++ partsOf rest := rfl

theorem partsOf_append (ms ms' : List (ProviderModelMessage π)) : partsOf (ms ++ ms') = partsOf ms ++ partsOf ms' :=
  List.flatMap_append

/-! ## Moved results -/

namespace Thinned

theorem length_le (h : Thinned wanted ms ms' found) : ms'.length ≤ ms.length := by
  induction h with
  | nil => exact Nat.le_refl _
  | turn => exact Nat.le_refl _
  | pass _ _ _ ih => exact Nat.succ_le_succ ih
  | thin _ _ _ _ _ _ _ _ _ ih => exact Nat.succ_le_succ ih
  | drop _ _ _ _ _ _ ih => exact Nat.le_succ_of_le ih

theorem perm (h : Thinned wanted ms ms' found) : (partsOf ms).Perm (found ++ partsOf ms') := by
  induction h with
  | nil => exact .refl _
  | turn => exact .refl _
  | @pass wanted m ms ms' found _ _ _ ih =>
    rw [partsOf_cons, partsOf_cons]
    exact (ih.append_left m.parts).trans (by simpa [List.append_assoc] using List.perm_append_comm.append_right (partsOf ms'))
  | @thin wanted m m' ms ms' taken found _ _ _ _ hperm _ _ _ _ ih =>
    rw [partsOf_cons, partsOf_cons]
    refine (hperm.append ih).trans ?_
    simp only [List.append_assoc]
    refine List.Perm.append_left taken ?_
    rw [← List.append_assoc, ← List.append_assoc]
    exact List.perm_append_comm.append_right _
  | drop _ _ hperm _ _ _ ih =>
    rw [partsOf_cons, List.append_assoc]
    exact hperm.append ih

theorem sublist (h : Thinned wanted ms ms' found) : (partsOf ms').Sublist (partsOf ms) := by
  induction h with
  | nil => exact List.Sublist.refl _
  | turn => exact List.Sublist.refl _
  | pass _ _ _ ih => exact (List.Sublist.refl _).append ih
  | thin _ _ _ _ _ hsub _ _ _ ih => exact hsub.append ih
  | drop _ _ _ _ _ _ ih => exact ih.trans (List.sublist_append_right _ _)

theorem flatMap_eq {α : Type} (h : Thinned wanted ms ms' found) {f : ProviderModelMessage π → List α}
    (htool : ∀ m, m.role = .tool → f m = []) : ms'.flatMap f = ms.flatMap f := by
  induction h with
  | nil => rfl
  | turn => rfl
  | pass _ _ _ ih => rw [List.flatMap_cons, List.flatMap_cons, ih]
  | thin hrole _ hrole' _ _ _ _ _ _ ih => rw [List.flatMap_cons, List.flatMap_cons, htool _ hrole, htool _ hrole', ih]
  | drop hrole _ _ _ _ _ ih => rw [List.flatMap_cons, htool _ hrole, ih, List.nil_append]

end Thinned

variable {id : Text}

theorem holdsResult_wanted {taken : List (Part π)} (htaken : ∀ part ∈ taken, ∃ id ∈ wanted, part.resultId = some id)
    (hid : id ∉ wanted) : holdsResult taken id = false := by
  rw [Bool.eq_false_iff, Ne, holdsResult_iff]
  rintro ⟨part, hpart, hresult⟩
  obtain ⟨other, hother, hsame⟩ := htaken part hpart
  exact hid (Option.some.inj (hresult.symm.trans hsame) ▸ hother)

theorem holdsResult_kept {parts kept taken : List (Part π)} (hperm : parts.Perm (taken ++ kept))
    (htaken : ∀ part ∈ taken, ∃ id ∈ wanted, part.resultId = some id) (hid : id ∉ wanted) :
    holdsResult kept id = holdsResult parts id := by
  rw [holdsResult_perm hperm, holdsResult_append, holdsResult_wanted htaken hid, Bool.false_or]

namespace Thinned

theorem reachable_eq (h : Thinned wanted ms ms' found) (hid : id ∉ wanted) :
    reachable ms' id = reachable ms id := by
  induction h with
  | nil => rfl
  | turn => rfl
  | pass hpass hturn _ ih => rw [reachable_pass hpass hturn, reachable_pass hpass hturn, ih hid]
  | thin hrole _ hrole' _ hperm _ htaken _ _ ih =>
    rw [reachable_tool hrole, reachable_tool hrole', holdsResult_kept hperm htaken hid,
      ih fun hmem => hid (List.mem_of_mem_filter hmem)]
  | drop hrole _ hperm _ htaken _ ih =>
    rw [reachable_tool hrole, holdsResult_perm hperm, holdsResult_wanted htaken hid, Bool.false_or,
      ih fun hmem => hid (List.mem_of_mem_filter hmem)]

theorem immediate (h : Thinned wanted ms ms' found) (hid : id ∉ wanted)
    (himmediate : hasImmediateToolResult ms.head? id = true) : hasImmediateToolResult ms'.head? id = true := by
  cases h with
  | nil => exact himmediate
  | turn => exact himmediate
  | pass => exact himmediate
  | thin hrole _ hrole' _ hperm _ htaken =>
    simpa [hasImmediateToolResult, hrole, hrole', holdsResult_kept hperm htaken hid] using himmediate
  | drop hrole _ hperm _ htaken =>
    simp [hasImmediateToolResult, hrole, holdsResult_perm hperm, holdsResult_wanted htaken hid] at himmediate

theorem orphans_eq (h : Thinned wanted ms ms' found) (hother : ∀ id ∈ callIds ms, id ∉ wanted) : orphans ms' = orphans ms := by
  induction h with
  | nil => rfl
  | turn => rfl
  | @pass wanted m ms ms' found hpass hturn hrest ih =>
    rw [orphans, orphans, ih fun id hid => hother id (callIds_cons m ms ▸ List.mem_append_right _ hid)]
    congr 1
    refine List.filter_congr fun call hcall => ?_
    rw [hrest.reachable_eq (hother _ (callIds_cons m ms ▸ List.mem_append_left _ (List.mem_map_of_mem hcall)))]
  | @thin wanted m m' ms ms' taken found hrole _ hrole' _ _ _ _ _ _ ih =>
    rw [orphans, orphans, allCalls_tool hrole, allCalls_tool hrole', ih fun id hid hmem =>
      hother id (callIds_cons m ms ▸ List.mem_append_right _ hid) (List.mem_of_mem_filter hmem)]
    rfl
  | @drop wanted m ms ms' taken found hrole _ _ _ _ _ ih =>
    rw [orphans, allCalls_tool hrole, ih fun id hid hmem =>
      hother id (callIds_cons m ms ▸ List.mem_append_right _ hid) (List.mem_of_mem_filter hmem)]
    rfl

end Thinned

/-! ## Messages that need no repair -/

def ProviderModelMessage.unresolved (m : ProviderModelMessage π) (rest : List (ProviderModelMessage π)) : List ToolCall :=
  (m.calls false).filter fun call => !holdsResult m.parts call.id && !hasImmediateToolResult rest.head? call.id

def ProviderModelMessage.placed (m : ProviderModelMessage π) (rest : List (ProviderModelMessage π)) : List ToolCall :=
  (m.calls true).filter fun call => !holdsResult m.parts call.id && !hasImmediateToolResult rest.head? call.id

variable {waiting : List Text}

theorem intact_turn {asked : Bool} (hturn : startsTurn m = true) :
    intact waiting asked (m :: ms) = m :: intact [] false ms := by
  rw [intact, if_pos hturn]

theorem intact_tool {asked : Bool} (hrole : m.role = .tool) (hlist : m.isList = true) :
    intact waiting asked (m :: ms) =
      if waiting.any (holdsResult m.parts ·) then
        intact (waiting.filter (!holdsResult m.parts ·))
          (asked && m.parts.all fun part => part.resultId.any (· ∈ waiting)) ms
      else if asked then intact (waiting.filter (!holdsResult m.parts ·)) false ms
      else m :: intact (waiting.filter (!holdsResult m.parts ·)) false ms := by
  rw [intact, if_neg (by simp [not_startsTurn hrole]), if_pos ⟨hrole, hlist⟩]

theorem intact_pass {asked : Bool} (hpass : m.role ≠ .tool ∨ m.isList = false)
    (hturn : startsTurn m = false) :
    intact waiting asked (m :: ms) =
      if m.placed ms = [] then m :: intact ((m.unresolved ms).map (·.id) ++ waiting) (!(m.unresolved ms).isEmpty) ms
      else intact ((m.unresolved ms).map (·.id) ++ waiting) (!(m.unresolved ms).isEmpty) ms := by
  have hnot : ¬ (m.role = .tool ∧ m.isList = true) := by
    rw [Decidable.not_and_iff_or_not, Bool.not_eq_true]
    exact hpass
  have hplaced : (m.calls true).any (fun call => !holdsResult m.parts call.id && !hasImmediateToolResult ms.head? call.id) =
      !(m.placed ms).isEmpty := by
    rw [ProviderModelMessage.placed, Bool.eq_iff_iff]
    simp [List.filter_eq_nil_iff]
  rw [intact, if_neg (by simp [hturn]), if_neg hnot]
  simp only [hplaced]
  by_cases hnone : m.placed ms = []
  · rw [if_pos hnone, if_neg (by simp [hnone])]
    rfl
  · rw [if_neg hnone, if_pos (by simpa using hnone)]
    rfl

variable {call : ToolCall}

theorem mem_calls {providerExecuted : Bool} (h : call ∈ m.calls providerExecuted) :
    call.id ∈ callIds (m :: ms) := by
  rw [callIds_cons]
  refine List.mem_append_left _ (List.mem_map_of_mem ?_)
  cases providerExecuted
  · exact List.mem_append_right _ h
  · exact List.mem_append_left _ h

theorem Thinned.intact {waiting' : List Text} {asked asked' : Bool} (h : Thinned wanted ms ms' found)
    (hother : ∀ id ∈ callIds ms, id ∉ wanted) (hwanted : ∀ id ∈ wanted, id ∈ waiting ∧ id ∉ waiting')
    (hwaiting : ∀ id ∈ waiting', id ∈ waiting) (hasked : asked' = true → asked = true) :
    (intact waiting asked ms).Sublist (intact waiting' asked' ms') := by
  induction h generalizing waiting waiting' asked asked' with
  | nil => exact List.Sublist.refl _
  | turn hturn => rw [intact_turn hturn, intact_turn hturn]
  | @pass wanted m ms ms' found hpass hturn hrest ih =>
    have hcall {call : ToolCall} {providerExecuted : Bool} (hmem : call ∈ m.calls providerExecuted) : call.id ∉ wanted :=
      hother _ (mem_calls hmem)
    have hsub {call : ToolCall} {providerExecuted : Bool} (hmem : call ∈ (m.calls providerExecuted).filter fun call =>
          !holdsResult m.parts call.id && !hasImmediateToolResult ms'.head? call.id) :
        call ∈ (m.calls providerExecuted).filter fun call =>
          !holdsResult m.parts call.id && !hasImmediateToolResult ms.head? call.id := by
      obtain ⟨hmem, hbeside⟩ := List.mem_filter.mp hmem
      obtain ⟨hinline, himmediate⟩ := Bool.and_eq_true_iff.mp hbeside
      refine List.mem_filter.mpr ⟨hmem, Bool.and_eq_true_iff.mpr ⟨hinline, ?_⟩⟩
      rw [Bool.not_eq_true', Bool.eq_false_iff] at himmediate ⊢
      exact fun hthen => himmediate (hrest.immediate (hcall hmem) hthen)
    have hstep := @ih ((m.unresolved ms).map (·.id) ++ waiting) ((m.unresolved ms').map (·.id) ++ waiting')
      (!(m.unresolved ms).isEmpty) (!(m.unresolved ms').isEmpty)
      (fun id hid => hother id (callIds_cons m ms ▸ List.mem_append_right _ hid))
      (fun id hid => ⟨List.mem_append_right _ (hwanted id hid).1, fun hmem => by
        rcases List.mem_append.mp hmem with hmem | hmem
        · obtain ⟨call, hcalled, rfl⟩ := List.mem_map.mp hmem
          exact hcall (List.mem_of_mem_filter hcalled) hid
        · exact (hwanted id hid).2 hmem⟩)
      (fun id hid => by
        rcases List.mem_append.mp hid with hid | hid
        · obtain ⟨call, hmem, rfl⟩ := List.mem_map.mp hid
          exact List.mem_append_left _ (List.mem_map_of_mem (hsub hmem))
        · exact List.mem_append_right _ (hwaiting id hid))
      (fun hne => by
        rw [Bool.not_eq_true', Bool.eq_false_iff, Ne, List.isEmpty_iff] at hne ⊢
        obtain ⟨call, hmem⟩ := List.exists_mem_of_ne_nil _ hne
        exact List.ne_nil_of_mem (hsub hmem))
    rw [intact_pass hpass hturn, intact_pass hpass hturn]
    by_cases hplaced : m.placed ms = []
    · have hplaced' : m.placed ms' = [] := List.eq_nil_iff_forall_not_mem.mpr fun call hmem =>
        List.not_mem_nil (hplaced ▸ show call ∈ m.placed ms from hsub hmem)
      rw [if_pos hplaced, if_pos hplaced']
      exact hstep.cons_cons m
    · rw [if_neg hplaced]
      split
      · exact hstep.cons m
      · exact hstep
  | @thin wanted m m' ms ms' taken found hrole hlist hrole' hlist' hperm hsub htaken hsame hrest ih =>
    have hkept {id : Text} (hid : id ∈ waiting') : holdsResult m'.parts id = holdsResult m.parts id :=
      holdsResult_kept hperm htaken fun hmem => (hwanted id hmem).2 hid
    have hstep {also also' : Bool} (halso : also' = true → also = true) := @ih (waiting.filter (!holdsResult m.parts ·))
      (waiting'.filter (!holdsResult m'.parts ·)) also also'
      (fun id hid hmem => hother id (callIds_cons m ms ▸ List.mem_append_right _ hid) (List.mem_of_mem_filter hmem))
      (fun id hid => by
        obtain ⟨hid, hheld⟩ := List.mem_filter.mp hid
        exact ⟨List.mem_filter.mpr ⟨(hwanted id hid).1, hheld⟩, fun hmem => (hwanted id hid).2 (List.mem_of_mem_filter hmem)⟩)
      (fun id hid => by
        obtain ⟨hid, hheld⟩ := List.mem_filter.mp hid
        exact List.mem_filter.mpr ⟨hwaiting id hid, hkept hid ▸ hheld⟩)
      halso
    have hnever {also : Bool} (h : false = true) : also = true := absurd h Bool.false_ne_true
    rw [intact_tool hrole hlist, intact_tool hrole' hlist']
    by_cases hgives : waiting.any (holdsResult m.parts ·) = true
    · rw [if_pos hgives]
      split
      · refine hstep fun h => ?_
        obtain ⟨hasked', hall⟩ := Bool.and_eq_true_iff.mp h
        refine Bool.and_eq_true_iff.mpr ⟨hasked hasked', List.all_eq_true.mpr fun part hpart => ?_⟩
        rcases List.mem_append.mp (hperm.mem_iff.mp hpart) with hpart | hpart
        · obtain ⟨id, hid, hresult⟩ := htaken part hpart
          simp [hresult, (hwanted id hid).1]
        · obtain ⟨id, hresult, hid⟩ := Option.any_eq_true _ _ |>.mp (List.all_eq_true.mp hall part hpart)
          simp [hresult, hwaiting id (of_decide_eq_true hid)]
      · split
        · exact hstep hnever
        · exact (hstep hnever).cons m'
    · -- nothing was taken
      have hnone : taken = [] := by
        refine List.eq_nil_iff_forall_not_mem.mpr fun part hpart => hgives ?_
        obtain ⟨id, hid, hresult⟩ := htaken part hpart
        refine List.any_eq_true.mpr ⟨id, (hwanted id hid).1, holdsResult_iff.mpr ⟨part, ?_, hresult⟩⟩
        exact hperm.mem_iff.mpr (List.mem_append_left _ hpart)
      obtain rfl := hsame hnone
      have hgives' : ¬ waiting'.any (holdsResult m'.parts ·) = true := by
        intro h
        obtain ⟨id, hid, hheld⟩ := List.any_eq_true.mp h
        exact hgives (List.any_eq_true.mpr ⟨id, hwaiting id hid, hheld⟩)
      rw [if_neg hgives, if_neg hgives']
      by_cases hnow : asked' = true
      · rw [if_pos hnow, if_pos (hasked hnow)]
        exact hstep hnever
      · rw [if_neg hnow]
        split
        · exact (hstep hnever).cons m'
        · exact (hstep hnever).cons_cons m'
  | @drop wanted m ms ms' taken found hrole hlist hperm hne htaken hrest ih =>
    obtain ⟨first, hfirst⟩ := List.exists_mem_of_ne_nil _ hne
    obtain ⟨id, hid, hresult⟩ := htaken first (hperm.mem_iff.mp hfirst)
    have hgives : waiting.any (holdsResult m.parts ·) = true :=
      List.any_eq_true.mpr ⟨id, (hwanted id hid).1, holdsResult_iff.mpr ⟨first, hfirst, hresult⟩⟩
    have hall : (m.parts.all fun part => part.resultId.any (· ∈ waiting)) = true := by
      refine List.all_eq_true.mpr fun part hpart => ?_
      obtain ⟨id, hid, hresult⟩ := htaken part (hperm.mem_iff.mp hpart)
      simp [hresult, (hwanted id hid).1]
    rw [intact_tool hrole hlist, if_pos hgives, hall, Bool.and_true]
    refine ih (fun id hid hmem => hother id (callIds_cons m ms ▸ List.mem_append_right _ hid) (List.mem_of_mem_filter hmem))
      (fun id hid => ?_) (fun id hid => ?_) hasked
    · obtain ⟨hid, hheld⟩ := List.mem_filter.mp hid
      exact ⟨List.mem_filter.mpr ⟨(hwanted id hid).1, hheld⟩, (hwanted id hid).2⟩
    · refine List.mem_filter.mpr ⟨hwaiting id hid, ?_⟩
      rw [holdsResult_perm hperm, holdsResult_wanted htaken fun hmem => (hwanted id hmem).2 hid]
      rfl

/-! ## Placeholders -/

def withPlaceholders (wants : Text → Bool) (parts : List (Part π)) : List (Part π) :=
  parts.flatMap fun part =>
    match part with
    | .toolCall toolCallId toolName true _ =>
      if wants toolCallId then [part, createSyntheticToolResult toolCallId toolName] else [part]
    | _ => [part]

def placeholder (call : ToolCall) : Part π := createSyntheticToolResult call.id call.toolName

theorem placeholder_resultId (call : ToolCall) : (placeholder call : Part π).resultId = some call.id := rfl

theorem withPlaceholders_spec (wants : Text → Bool) (parts : List (Part π)) :
    (withPlaceholders wants parts).Perm (parts ++ ((toolCalls true parts).filter (wants ·.id)).map placeholder) ∧
      parts.Sublist (withPlaceholders wants parts) ∧
      ∀ providerExecuted, toolCalls providerExecuted (withPlaceholders wants parts) = toolCalls providerExecuted parts := by
  induction parts with
  | nil => exact ⟨.refl _, .refl _, fun _ => rfl⟩
  | cons part parts ih =>
    obtain ⟨hperm, hsub, hcalls⟩ := ih
    -- of a part that gets no placeholder
    have hplain {part : Part π} (hone : withPlaceholders wants (part :: parts) = part :: withPlaceholders wants parts)
        (hnone : (toolCalls true (part :: parts)).filter (wants ·.id) = (toolCalls true parts).filter (wants ·.id)) :
        (withPlaceholders wants (part :: parts)).Perm
            (part :: parts ++ ((toolCalls true (part :: parts)).filter (wants ·.id)).map placeholder) ∧
          (part :: parts).Sublist (withPlaceholders wants (part :: parts)) ∧
          ∀ providerExecuted, toolCalls providerExecuted (withPlaceholders wants (part :: parts)) =
            toolCalls providerExecuted (part :: parts) := by
      rw [hone, hnone]
      refine ⟨hperm.cons part, hsub.cons_cons part, fun providerExecuted => ?_⟩
      simp only [toolCalls, List.filterMap_cons] at hcalls ⊢
      rw [hcalls]
    match part with
    | .toolCall id name true data =>
      by_cases hwants : wants id = true
      · have htwo : withPlaceholders wants (.toolCall id name true data :: parts) =
            .toolCall id name true data :: placeholder ⟨id, name⟩ :: withPlaceholders wants parts := by
          simp [withPlaceholders, hwants, placeholder]
        have hone : (toolCalls true (.toolCall id name true data :: parts)).filter (wants ·.id) =
            ⟨id, name⟩ :: (toolCalls true parts).filter (wants ·.id) := by
          simp [toolCalls, hwants]
        rw [htwo, hone]
        refine ⟨?_, (hsub.cons _).cons_cons _, fun providerExecuted => ?_⟩
        · rw [List.cons_append, List.map_cons]
          exact ((hperm.cons _).trans List.perm_middle.symm).cons _
        · simp only [toolCalls, List.filterMap_cons, placeholder, createSyntheticToolResult] at hcalls ⊢
          rw [hcalls]
      · refine hplain ?_ ?_
        · simp [withPlaceholders, hwants]
        · simp [toolCalls, hwants]
    | .toolCall id name false data => exact hplain rfl rfl
    | .toolResult id name output data => exact hplain rfl rfl
    | .other data => exact hplain rfl rfl

theorem repairedContent_eq (hrole : m.role = .assistant) :
    (repairedContent false m.parts rest.head?).Perm (m.parts ++ (m.placed rest).map placeholder) ∧
      m.parts.Sublist (repairedContent false m.parts rest.head?) ∧
      ∀ providerExecuted, toolCalls providerExecuted (repairedContent false m.parts rest.head?) =
        toolCalls providerExecuted m.parts := by
  have hwants : (fun call : ToolCall => wantsPlaceholder false m.parts rest.head? call.id) =
      fun call => !holdsResult m.parts call.id && !hasImmediateToolResult rest.head? call.id := by
    funext call
    simp [wantsPlaceholder]
  have hspec := withPlaceholders_spec (wantsPlaceholder false m.parts rest.head?) m.parts
  rw [hwants] at hspec
  rw [ProviderModelMessage.placed, ProviderModelMessage.calls, if_pos hrole]
  exact hspec

/-! ## One turn of the loop -/

theorem unresolvedCalls_eq (hrole : m.role = .assistant) :
    unresolvedCalls false m.parts rest.head? = m.unresolved rest := by
  rw [unresolvedCalls, regularToolCalls, ProviderModelMessage.unresolved, ProviderModelMessage.calls, if_pos hrole,
    List.filter_filter]
  exact List.filter_congr fun call _ => by simp [Bool.and_comm]

structure Filled (m : ProviderModelMessage π) (rest : List (ProviderModelMessage π)) (m' : ProviderModelMessage π) : Prop where
  role : m.role = .assistant
  isList : m.isList = true
  role' : m'.role = .assistant
  parts : m'.parts = repairedContent false m.parts rest.head?
  same : m'.parts.length = m.parts.length → m' = m

/-- What one turn of the loop does. The results of the unresolved calls stand in `t` in front of `next`, the tool message
that was there, if any. -/
inductive Turn (m : ProviderModelMessage π) (rest : List (ProviderModelMessage π)) : Repair π → Prop
  | skipped (h : m.role ≠ .assistant ∨ m.isList = false) : Turn m rest ⟨[m], rest, false⟩
  | resolved {m' : ProviderModelMessage π} {mutated : Bool} (hfilled : Filled m rest m') (hnone : m.unresolved rest = []) :
      Turn m rest ⟨[m'], rest, mutated⟩
  | answered {m' t : ProviderModelMessage π} {next rest' : List (ProviderModelMessage π)} {moved : MovedResults π}
      (hfilled : Filled m rest m') (hsome : m.unresolved rest ≠ []) (hcollected : Collected ((m.unresolved rest).map (·.id)) moved)
      (hthin : Thinned ((m.unresolved rest).map (·.id)) rest (next ++ rest') (moved.map (·.2)))
      (hhas : ∀ call ∈ m.unresolved rest, moved.has call.id = reachable rest call.id)
      (hrole : t.role = .tool) (hparts : t.parts = repairedResults (m.unresolved rest) moved ++ partsOf next)
      (hnext : next = [] ∨ ∃ n, next = [n] ∧ n.role = .tool ∧ n.isList = true)
      (hbeside : ∀ id, hasImmediateToolResult rest.head? id = true → holdsResult (partsOf next) id = true) :
      Turn m rest ⟨[m', t], rest', true⟩

theorem filled (hrole : m.role = .assistant) (hlist : m.isList = true) :
    Filled m rest (if (repairedContent false m.parts rest.head?).length ≠ m.parts.length then
      copyProviderModelMessageSourceId m ⟨m.role, .parts (repairedContent false m.parts rest.head?), none⟩ else m) := by
  by_cases hlength : (repairedContent false m.parts rest.head?).length = m.parts.length
  · rw [if_neg (not_not.mpr hlength)]
    exact ⟨hrole, hlist, hrole, (repairedContent_eq hrole).2.1.eq_of_length hlength.symm, fun _ => rfl⟩
  · rw [if_pos hlength]
    exact ⟨hrole, hlist, by rw [copy_role, hrole], by rw [copy_parts]; rfl, fun h => absurd (by rwa [copy_parts] at h) hlength⟩

theorem repairMessage_turn (m : ProviderModelMessage π) (rest : List (ProviderModelMessage π)) :
    Turn m rest (repairMessage [] m rest) := by
  rw [repairMessage]
  split
  · rename_i hskip
    exact .skipped (hskip.imp_right Bool.eq_false_iff.mpr)
  · rename_i hassistant
    obtain ⟨hrole, hlist⟩ := not_or.mp hassistant
    have hrole := not_not.mp hrole
    have hlist := not_not.mp hlist
    have hpreserve : (m.sourceId.any fun id => decide (id ∈ ([] : List Text))) = false := by
      cases m.sourceId <;> simp
    have hfilled := @filled _ m rest hrole hlist
    simp only [hpreserve, unresolvedCalls_eq hrole]
    split
    · rename_i hnone
      exact .resolved hfilled (List.length_eq_zero_iff.mp hnone)
    · rename_i hsome
      have hsome : m.unresolved rest ≠ [] := fun hnil => hsome (List.length_eq_zero_iff.mpr hnil)
      obtain ⟨hcollected, hthin, hreach, hhead⟩ := @moveResultsBehind_spec _ ((m.unresolved rest).map (·.id)) rest (by
        intro id hid
        obtain ⟨call, hcall, rfl⟩ := List.mem_map.mp hid
        simpa using (Bool.and_eq_true_iff.mp (List.mem_filter.mp hcall).2).2)
      have hhas : ∀ call ∈ m.unresolved rest, _ := fun call hcall => hreach call.id (List.mem_map_of_mem hcall)
      generalize moveResultsBehind ((m.unresolved rest).map (·.id)) rest = moves at *
      obtain ⟨moved, full⟩ := moves
      simp only at hcollected hthin hhas hhead ⊢
      -- a tool message is put in
      have hnew (hnone : ∀ id, hasImmediateToolResult rest.head? id = false) : Turn m rest ⟨[_, _], full, true⟩ :=
        have hthin' : Thinned _ rest ([] ++ full) _ := hthin
        .answered hfilled hsome hcollected hthin' hhas (copy_role m _)
          ((copy_parts m ⟨.tool, .parts (repairedResults (m.unresolved rest) moved), none⟩).trans (List.append_nil _).symm)
          (.inl rfl) fun id h => absurd ((hnone id).symm.trans h) Bool.false_ne_true
      cases full with
      | nil => exact hnew fun id => by rw [← hhead]; rfl
      | cons next rest' =>
        by_cases htool : next.role = .tool ∧ next.isList = true
        · have hthin' : Thinned _ rest ([next] ++ rest') _ := hthin
          simp only [if_pos htool]
          refine .answered hfilled hsome hcollected hthin' hhas (by simp) ?_ (.inr ⟨next, rfl, htool⟩) fun id h => ?_
          · rw [copy_parts]
            simp [ProviderModelMessage.parts, partsOf]
          · rw [← hhead] at h
            simpa [hasImmediateToolResult, htool.1, partsOf] using h
        · simp only [if_neg htool]
          refine hnew fun id => ?_
          rw [← hhead, List.head?_cons, hasImmediateToolResult, Option.any_some]
          by_cases hrole : next.role = .tool
          · rw [parts_eq_nil (Bool.eq_false_iff.mpr fun hlist => htool ⟨hrole, hlist⟩)]
            simp
          · simp [hrole]

theorem Turn.length_le {r : Repair π} (h : Turn m rest r) : r.rest.length ≤ rest.length := by
  cases h with
  | skipped => exact Nat.le_refl _
  | resolved => exact Nat.le_refl _
  | answered _ _ _ hthin =>
    have := hthin.length_le
    rw [List.length_append] at this
    exact Nat.le_of_add_left_le this

inductive Loop : List (ProviderModelMessage π) → List (ProviderModelMessage π) →
    List (ProviderModelMessage π × List (ProviderModelMessage π)) → Prop
  | nil : Loop [] [] []
  | cons {m : ProviderModelMessage π} {rest out : List (ProviderModelMessage π)} {r : Repair π}
      {seen : List (ProviderModelMessage π × List (ProviderModelMessage π))} (hturn : Turn m rest r)
      (hrest : Loop r.rest out seen) : Loop (m :: rest) (r.emitted ++ out) ((m, rest) :: seen)

theorem loop_repairFrom {fuel : Nat} (hfuel : ms.length ≤ fuel) :
    Loop ms (repairFrom [] fuel ms).1 (visits fuel ms) := by
  induction fuel generalizing ms with
  | zero =>
    obtain rfl := List.length_eq_zero_iff.mp (Nat.le_zero.mp hfuel)
    exact .nil
  | succ fuel ih =>
    cases ms with
    | nil => exact .nil
    | cons m rest =>
      have hturn := repairMessage_turn m rest
      exact .cons hturn (ih (hturn.length_le.trans (Nat.le_of_succ_le_succ hfuel)))

/-! ## Parts -/

def ProviderModelMessage.missing (m : ProviderModelMessage π) (rest : List (ProviderModelMessage π)) : List ToolCall :=
  (m.calls false).filter fun call => !holdsResult m.parts call.id && !reachable rest call.id

theorem missing_eq (m : ProviderModelMessage π) (rest : List (ProviderModelMessage π)) :
    m.missing rest = (m.unresolved rest).filter fun call => !reachable rest call.id := by
  rw [ProviderModelMessage.missing, ProviderModelMessage.unresolved, List.filter_filter]
  refine List.filter_congr fun call _ => ?_
  cases hreach : reachable rest call.id with
  | true => simp
  | false =>
    have himmediate : hasImmediateToolResult rest.head? call.id = false :=
      Bool.eq_false_iff.mpr fun h => Bool.false_ne_true (hreach.symm.trans (reachable_of_immediate h))
    simp [himmediate]

theorem placed_perm (m : ProviderModelMessage π) (rest : List (ProviderModelMessage π)) :
    (m.placed rest).Perm (((m.calls true).filter fun call => !holdsResult m.parts call.id && !reachable rest call.id) ++
      strands (m, rest)) := by
  refine (List.filter_append_perm (fun call => !reachable rest call.id) (m.placed rest)).symm.trans (.of_eq ?_)
  rw [ProviderModelMessage.placed, List.filter_filter, List.filter_filter, strands]
  congr 1
  · refine List.filter_congr fun call _ => ?_
    cases hreach : reachable rest call.id with
    | true => simp
    | false =>
      have himmediate : hasImmediateToolResult rest.head? call.id = false :=
        Bool.eq_false_iff.mpr fun h => Bool.false_ne_true (hreach.symm.trans (reachable_of_immediate h))
      simp [himmediate]
  · exact List.filter_congr fun call _ => by simp [Bool.and_comm]

theorem placeholders_perm (m : ProviderModelMessage π) (rest : List (ProviderModelMessage π)) :
    (m.placed rest ++ m.missing rest).Perm
      ((m.allCalls.filter fun call => !holdsResult m.parts call.id && !reachable rest call.id) ++ strands (m, rest)) := by
  rw [ProviderModelMessage.allCalls, List.filter_append]
  refine ((placed_perm m rest).append_right _).trans ?_
  rw [List.append_assoc, List.append_assoc]
  exact List.perm_append_comm.append_left _

theorem repairedResults_perm {unresolved : List ToolCall} {moved : MovedResults π}
    (hcollected : Collected (unresolved.map (·.id)) moved) (hnodup : (unresolved.map (·.id)).Nodup) :
    (repairedResults unresolved moved).Perm
      (moved.map (·.2) ++ (unresolved.filter fun call => !moved.has call.id).map placeholder) := by
  have hsplit := (List.filter_append_perm (fun call => moved.has call.id) unresolved).symm
  refine (hsplit.map _).trans ?_
  rw [List.map_append]
  refine List.Perm.append ?_ (.of_eq (List.map_congr_left fun call hcall => ?_))
  · -- the results that were found, by their calls
    have hids : ((unresolved.filter fun call => moved.has call.id).map (·.id)).Perm (moved.map (·.1)) := by
      refine (List.perm_ext_iff_of_nodup (hnodup.sublist (List.filter_sublist.map _)) hcollected.once).mpr fun id => ?_
      constructor
      · intro hid
        obtain ⟨call, hcall, rfl⟩ := List.mem_map.mp hid
        exact MovedResults.has_iff.mp (List.mem_filter.mp hcall).2
      · intro hid
        obtain ⟨entry, hentry, rfl⟩ := List.mem_map.mp hid
        obtain ⟨call, hcall, hsame⟩ := List.mem_map.mp (hcollected.results entry hentry).1
        exact List.mem_map.mpr ⟨call, List.mem_filter.mpr ⟨hcall, hsame ▸ MovedResults.has_iff.mpr hid⟩, hsame⟩
    have hgot : (unresolved.filter fun call => moved.has call.id).map
          (fun call => (moved.get call.id).getD (createSyntheticToolResult call.id call.toolName)) =
        ((unresolved.filter fun call => moved.has call.id).map (·.id)).map
          fun id => (moved.get id).getD (createSyntheticToolResult id []) := by
      rw [List.map_map]
      refine List.map_congr_left fun call hcall => ?_
      obtain ⟨entry, hentry, hsame⟩ := List.mem_map.mp (MovedResults.has_iff.mp (List.mem_filter.mp hcall).2)
      rw [Function.comp, ← hsame, hcollected.get hentry]
      rfl
    rw [hgot]
    refine (hids.map _).trans (.of_eq ?_)
    rw [List.map_map]
    refine List.map_congr_left fun entry hentry => ?_
    rw [Function.comp, hcollected.get hentry]
    rfl
  · have hnone : moved.get call.id = none := by
      rw [MovedResults.get, Option.map_eq_none_iff, List.find?_eq_none]
      intro entry hentry hsame
      have hhas : moved.has call.id = true :=
        MovedResults.has_iff.mpr (List.mem_map.mpr ⟨entry, hentry, of_decide_eq_true hsame⟩)
      have hnot := (List.mem_filter.mp hcall).2
      rw [hhas] at hnot
      cases hnot
    rw [hnone]
    rfl

theorem Turn.parts {r : Repair π} (h : Turn m rest r) (hnodup : (callIds (m :: rest)).Nodup) :
    callIds r.rest = callIds rest ∧ r.rest.flatMap (·.calls false) = rest.flatMap (·.calls false) ∧
      orphans r.rest = orphans rest ∧ ∃ (shown moved : List (Part π)) (placeholders : List ToolCall), (partsOf (m :: rest)).Perm (shown ++ moved ++ partsOf r.rest) ∧
        (shown ++ partsOf r.rest).Sublist (partsOf (m :: rest)) ∧ shown.Sublist (partsOf r.emitted) ∧
        (partsOf r.emitted).Perm (shown ++ moved ++ placeholders.map placeholder) ∧
        (∀ part ∈ moved, ∃ call ∈ m.calls false, part.resultId = some call.id) ∧
        placeholders.Perm (m.placed rest ++ m.missing rest) := by
  cases h with
  | skipped hskip =>
    have hcalls := allCalls_of_skipped hskip
    have hplaced : m.placed rest ++ m.missing rest = [] := by
      rw [ProviderModelMessage.allCalls, List.append_eq_nil_iff] at hcalls
      rw [ProviderModelMessage.placed, ProviderModelMessage.missing, hcalls.1, hcalls.2]
      rfl
    refine ⟨rfl, rfl, rfl, m.parts, [], [], ?_, List.Sublist.refl _, ?_, ?_, fun _ h => absurd h List.not_mem_nil, ?_⟩
    · rw [List.append_nil, partsOf_cons]
    · simp [partsOf]
    · simp [partsOf]
    · rw [hplaced]
  | @resolved m' _ hfilled hnone =>
    obtain ⟨hperm, hsub, -⟩ := @repairedContent_eq _ m rest hfilled.role
    rw [← hfilled.parts] at hperm hsub
    have hmissing : m.missing rest = [] := by rw [missing_eq, hnone]; rfl
    refine ⟨rfl, rfl, rfl, m.parts, [], m.placed rest, ?_, List.Sublist.refl _, ?_, ?_, fun _ h => absurd h List.not_mem_nil, ?_⟩
    · rw [List.append_nil, partsOf_cons]
    · simpa [partsOf] using hsub
    · simpa [partsOf] using hperm
    · rw [hmissing, List.append_nil]
  | @answered m' t next rest' moved hfilled hsome hcollected hthin hhas hrole hparts hnext hbeside =>
    obtain ⟨hperm, hsub, -⟩ := @repairedContent_eq _ m rest hfilled.role
    rw [← hfilled.parts] at hperm hsub
    have hids : ((m.unresolved rest).map (·.id)).Sublist (m.allCalls.map (·.id)) :=
      (List.filter_sublist.trans (List.sublist_append_right _ _)).map _
    rw [callIds_cons] at hnodup
    have hother : ∀ id ∈ callIds rest, id ∉ (m.unresolved rest).map (·.id) := fun id hid hmem =>
      List.disjoint_of_nodup_append hnodup (hids.subset hmem) hid
    have hnone : (∀ {α : Type} (f : ProviderModelMessage π → List α), (∀ m, m.role = .tool → f m = []) →
        next.flatMap f = []) ∧ orphans (next ++ rest') = orphans rest' := by
      obtain rfl | ⟨n, rfl, hn, -⟩ := hnext
      · exact ⟨fun _ _ => rfl, rfl⟩
      · rw [List.singleton_append, orphans, allCalls_tool hn]
        exact ⟨fun f htool => by simp [htool n hn], rfl⟩
    have hcalls {α : Type} (f : ProviderModelMessage π → List α) (htool : ∀ m, m.role = .tool → f m = []) :
        rest'.flatMap f = rest.flatMap f := by
      rw [← hthin.flatMap_eq htool, List.flatMap_append, hnone.1 f htool, List.nil_append]
    have hmissing : (m.unresolved rest).filter (fun call => !moved.has call.id) = m.missing rest := by
      rw [missing_eq]
      exact List.filter_congr fun call hcall => by rw [hhas call hcall]
    have hresults := repairedResults_perm hcollected ((List.nodup_append.mp hnodup).1.sublist hids)
    rw [hmissing] at hresults
    have hmoves := hthin.perm
    have hkeeps := hthin.sublist
    rw [partsOf_append] at hmoves hkeeps
    refine ⟨congrArg (List.map ToolCall.id) (hcalls _ fun _ => allCalls_tool),
      hcalls _ fun _ h => calls_of_not_assistant (by simp [h]) false, hnone.2.symm.trans (hthin.orphans_eq hother), m.parts ++ partsOf next, moved.map (·.2),
      m.placed rest ++ m.missing rest, ?_, ?_, ?_, ?_, fun part hpart => ?_, .refl _⟩
    · rw [partsOf_cons, List.append_assoc, List.append_assoc]
      refine (hmoves.append_left m.parts).trans (List.Perm.append_left m.parts ?_)
      rw [← List.append_assoc, ← List.append_assoc]
      exact List.perm_append_comm.append_right _
    · rw [partsOf_cons, List.append_assoc]
      exact (List.Sublist.refl _).append hkeeps
    · simp only [partsOf, List.flatMap_cons, List.flatMap_nil, List.append_nil]
      exact hsub.append (hparts ▸ List.sublist_append_right _ _)
    · simp only [partsOf, List.flatMap_cons, List.flatMap_nil, List.append_nil, hparts]
      refine (hperm.append (hresults.append_right _)).trans ?_
      rw [← Multiset.coe_eq_coe]
      simp only [← Multiset.coe_add, List.map_append]
      abel
    · obtain ⟨entry, hentry, rfl⟩ := List.mem_map.mp hpart
      obtain ⟨hid, hresult⟩ := hcollected.results entry hentry
      obtain ⟨call, hcall, hsame⟩ := List.mem_map.mp hid
      exact ⟨call, List.mem_of_mem_filter hcall, hsame ▸ hresult⟩

namespace Loop

variable {out : List (ProviderModelMessage π)} {seen : List (ProviderModelMessage π × List (ProviderModelMessage π))}

/-- The calls that get a placeholder in the whole loop. -/
def standIns (ms : List (ProviderModelMessage π)) (seen : List (ProviderModelMessage π × List (ProviderModelMessage π))) :
    List ToolCall :=
  orphans ms ++ seen.flatMap strands

theorem standIns_cons {r : Repair π} (horphans : orphans r.rest = orphans rest) :
    (standIns (m :: rest) ((m, rest) :: seen)).Perm (m.placed rest ++ m.missing rest ++ standIns r.rest seen) := by
  rw [standIns, standIns, orphans, horphans, List.flatMap_cons]
  refine List.Perm.trans ?_ ((placeholders_perm m rest).symm.append_right _)
  simp only [List.append_assoc]
  refine List.Perm.append_left _ ?_
  rw [← List.append_assoc, ← List.append_assoc]
  exact List.perm_append_comm.append_right _

theorem subperm (h : Loop ms out seen) (hnodup : (callIds ms).Nodup) :
    ((standIns ms seen).map (·.id)).Subperm (callIds ms) := by
  induction h with
  | nil => exact List.Subperm.refl _
  | @cons m rest out r seen hturn hrest ih =>
    obtain ⟨hids, -, horphans, -⟩ := hturn.parts hnodup
    have hrestIds := hids ▸ (List.nodup_append.mp (callIds_cons m rest ▸ hnodup)).2.1
    have hhere : (m.placed rest ++ m.missing rest).Sublist m.allCalls := List.filter_sublist.append List.filter_sublist
    rw [callIds_cons, ← hids]
    refine (((standIns_cons horphans).map _).subperm).trans ?_
    rw [List.map_append]
    exact (hhere.map _).subperm.append (ih hrestIds)

theorem parts (h : Loop ms out seen) (hnodup : (callIds ms).Nodup) :
    ∃ kept moved synthetic, (partsOf ms).Perm (kept ++ moved) ∧ kept.Sublist (partsOf ms) ∧ kept.Sublist (partsOf out) ∧
      (partsOf out).Perm (kept ++ moved ++ synthetic) ∧
      (∀ part ∈ moved, ∃ call ∈ ms.flatMap (·.calls false), part.resultId = some call.id) ∧
      synthetic.Perm ((standIns ms seen).map placeholder) := by
  induction h with
  | nil => exact ⟨[], [], [], .refl _, .refl _, .refl _, .refl _, fun _ h => absurd h List.not_mem_nil, .refl _⟩
  | @cons m rest out r seen hturn hrest ih =>
    obtain ⟨hids, hcalls, horphans, shown, moved, placeholders, hin, hsub, hshown, hout, hmoved, hplaceholders⟩ := hturn.parts hnodup
    obtain ⟨kept', moved', synthetic', hin', hsub', hkept', hout', hmoved', hsynthetic'⟩ :=
      ih (hids ▸ (List.nodup_append.mp (callIds_cons m rest ▸ hnodup)).2.1)
    refine ⟨shown ++ kept', moved ++ moved', placeholders.map placeholder ++ synthetic', ?_, ?_, ?_, ?_, ?_, ?_⟩
    · refine hin.trans ((hin'.append_left _).trans ?_)
      rw [← Multiset.coe_eq_coe]
      simp only [← Multiset.coe_add]
      abel
    · exact ((List.Sublist.refl _).append hsub').trans hsub
    · rw [partsOf_append]
      exact hshown.append hkept'
    · rw [partsOf_append]
      refine (hout.append hout').trans ?_
      rw [← Multiset.coe_eq_coe]
      simp only [← Multiset.coe_add]
      abel
    · intro part hpart
      rcases List.mem_append.mp hpart with hpart | hpart
      · obtain ⟨call, hcall, hresult⟩ := hmoved part hpart
        exact ⟨call, List.mem_append_left _ hcall, hresult⟩
      · obtain ⟨call, hcall, hresult⟩ := hmoved' part hpart
        rw [hcalls] at hcall
        exact ⟨call, List.mem_append_right _ hcall, hresult⟩
    · refine List.Perm.trans ?_ ((standIns_cons horphans).map _).symm
      rw [List.map_append]
      exact (hplaceholders.map _).append hsynthetic'

end Loop

/-! ## Pairs -/

theorem repairedResults_holds {unresolved : List ToolCall} {moved : MovedResults π}
    (hcollected : Collected wanted moved) (hcall : call ∈ unresolved) :
    holdsResult (repairedResults unresolved moved) call.id = true := by
  refine holdsResult_iff.mpr ⟨_, List.mem_map_of_mem hcall, ?_⟩
  cases hget : moved.get call.id with
  | none => exact placeholder_resultId call
  | some part => exact hcollected.get_resultId hget

theorem Filled.pairs (h : Filled m rest m') (hcall : call ∈ m'.allCalls) :
    holdsResult m'.parts call.id = true ∨ hasImmediateToolResult rest.head? call.id = true ∨ call ∈ m.unresolved rest := by
  obtain ⟨hperm, -, hcalls⟩ := @repairedContent_eq _ m rest h.role
  rw [← h.parts] at hperm hcalls
  have hkept : holdsResult m'.parts call.id =
      (holdsResult m.parts call.id || holdsResult ((m.placed rest).map placeholder : List (Part π)) call.id) := by
    rw [holdsResult_perm hperm, holdsResult_append]
  rcases hinline : holdsResult m.parts call.id with _ | _
  · rcases himmediate : hasImmediateToolResult rest.head? call.id with _ | _
    · have hbeside : (!holdsResult m.parts call.id && !hasImmediateToolResult rest.head? call.id) = true := by
        rw [hinline, himmediate]
        rfl
      have hsame {providerExecuted : Bool} (hcall : call ∈ m'.calls providerExecuted) : call ∈ m.calls providerExecuted := by
        rw [ProviderModelMessage.calls, if_pos h.role', hcalls] at hcall
        rw [ProviderModelMessage.calls, if_pos h.role]
        exact hcall
      rcases List.mem_append.mp hcall with hcall | hcall
      · refine .inl (hkept.trans ?_)
        rw [Bool.or_eq_true]
        exact .inr (holdsResult_iff.mpr ⟨_, List.mem_map_of_mem (List.mem_filter.mpr ⟨hsame hcall, hbeside⟩),
          placeholder_resultId call⟩)
      · exact .inr (.inr (List.mem_filter.mpr ⟨hsame hcall, hbeside⟩))
    · exact .inr (.inl rfl)
  · exact .inl (hkept.trans (by rw [hinline, Bool.true_or]))

variable {out : List (ProviderModelMessage π)} {seen : List (ProviderModelMessage π × List (ProviderModelMessage π))}

theorem Loop.immediate
    (h : Loop ms out seen) (himmediate : hasImmediateToolResult ms.head? id = true) :
    hasImmediateToolResult out.head? id = true := by
  cases h with
  | nil => exact himmediate
  | @cons m rest out r seen hturn _ =>
    have hrole : m.role = .tool := by
      obtain ⟨n, hn, hrole, -⟩ := hasImmediateToolResult_iff.mp himmediate
      obtain rfl : m = n := by simpa using hn
      exact hrole
    cases hturn with
    | skipped => exact himmediate
    | resolved hfilled => exact absurd (hrole.symm.trans hfilled.role) (by decide)
    | answered hfilled => exact absurd (hrole.symm.trans hfilled.role) (by decide)

theorem Loop.paired
    (h : Loop ms out seen) : Paired out := by
  induction h with
  | nil => trivial
  | @cons m rest out r seen hturn hrest ih =>
    cases hturn with
    | skipped hskip =>
      refine ⟨fun call hcall => ?_, ih⟩
      rw [allCalls_of_skipped hskip] at hcall
      exact absurd hcall List.not_mem_nil
    | resolved hfilled hnone =>
      refine ⟨fun call hcall => ?_, ih⟩
      rcases hfilled.pairs hcall with hinline | himmediate | hmem
      · exact .inl hinline
      · exact .inr (hrest.immediate himmediate)
      · exact absurd (hnone ▸ hmem) List.not_mem_nil
    | @answered m' t next rest' moved hfilled _ hcollected _ _ hrole hparts _ hbeside =>
      refine ⟨fun call hcall => ?_, fun call hcall => ?_, ih⟩
      · have hbehind (hholds : holdsResult t.parts call.id = true) :
            hasImmediateToolResult ([t] ++ out).head? call.id = true :=
          hasImmediateToolResult_iff.mpr ⟨t, rfl, hrole, hholds⟩
        rw [hparts, holdsResult_append, Bool.or_eq_true] at hbehind
        rcases hfilled.pairs hcall with hinline | himmediate | hmem
        · exact .inl hinline
        · exact .inr (hbehind (.inr (hbeside _ himmediate)))
        · exact .inr (hbehind (.inl (repairedResults_holds hcollected hmem)))
      · rw [allCalls_tool hrole] at hcall
        exact absurd hcall List.not_mem_nil

theorem repairMessage_of_paired
    (h : ∀ call ∈ m.allCalls, holdsResult m.parts call.id = true ∨ hasImmediateToolResult rest.head? call.id = true) :
    repairMessage [] m rest = ⟨[m], rest, false⟩ := by
  have hnone (providerExecuted : Bool) : (m.calls providerExecuted).filter (fun call =>
      !holdsResult m.parts call.id && !hasImmediateToolResult rest.head? call.id) = [] := by
    refine List.filter_eq_nil_iff.mpr fun call hcall hbeside => ?_
    have hmem : call ∈ m.allCalls := by
      cases providerExecuted
      · exact List.mem_append_right _ hcall
      · exact List.mem_append_left _ hcall
    rcases h call hmem with hholds | himmediate
    · simp [hholds] at hbeside
    · simp [himmediate] at hbeside
  have hplaced : m.placed rest = [] := hnone true
  have hunresolved : m.unresolved rest = [] := hnone false
  rw [repairMessage]
  split
  · rfl
  · rename_i hassistant
    have hrole := not_not.mp (not_or.mp hassistant).1
    have hpreserve : (m.sourceId.any fun id => decide (id ∈ ([] : List Text))) = false := by
      cases m.sourceId <;> simp
    have hlength : (repairedContent false m.parts rest.head?).length = m.parts.length := by
      rw [(@repairedContent_eq _ m rest hrole).1.length_eq, hplaced, List.map_nil, List.append_nil]
    simp only [hpreserve, unresolvedCalls_eq hrole, hunresolved, hlength]
    simp

theorem repairFrom_of_paired (h : Paired ms) (fuel : Nat) : repairFrom [] fuel ms = (ms, false) := by
  induction fuel generalizing ms with
  | zero => rfl
  | succ fuel ih =>
    cases ms with
    | nil => rfl
    | cons m rest =>
      rw [repairFrom, repairMessage_of_paired h.1]
      simp only [ih h.2]
      rfl

theorem repairMessage_unmutated {preserved : List Text} (h : (repairMessage preserved m rest).mutated = false) :
    (repairMessage preserved m rest).emitted ++ (repairMessage preserved m rest).rest = m :: rest := by
  revert h
  rw [repairMessage]
  split
  · exact fun _ => rfl
  · simp only
    split
    · intro h
      have hlength := of_decide_eq_false h
      simp only [if_neg hlength]
      rfl
    · split
      · split
        · exact nofun
        · exact nofun
      · exact nofun

theorem repairFrom_unmutated {preserved : List Text} {fuel : Nat} (h : (repairFrom preserved fuel ms).2 = false) :
    (repairFrom preserved fuel ms).1 = ms := by
  induction fuel generalizing ms with
  | zero => rfl
  | succ fuel ih =>
    cases ms with
    | nil => rfl
    | cons m rest =>
      obtain ⟨hhere, hlater⟩ := Bool.or_eq_false_iff.mp h
      show (repairMessage preserved m rest).emitted ++ _ = _
      rw [ih hlater]
      exact repairMessage_unmutated hhere

theorem repairToolPairs_eq (messages : List (ProviderModelMessage π)) :
    repairToolPairs messages = (repairFrom [] messages.length messages).1 := by
  show (if (repairFrom [] messages.length messages).2 then (repairFrom [] messages.length messages).1 else messages) = _
  split
  · rfl
  · rename_i h
    exact (repairFrom_unmutated (Bool.eq_false_iff.mpr h)).symm

theorem Loop.intact
    (h : Loop ms out seen) (hnodup : (callIds ms).Nodup) : (intact [] false ms).Sublist out := by
  induction h with
  | nil => exact List.Sublist.refl _
  | @cons m rest out r seen hturn hrest ih =>
    obtain ⟨hids, -⟩ := hturn.parts hnodup
    have ih := ih (hids ▸ (List.nodup_append.mp (callIds_cons m rest ▸ hnodup)).2.1)
    rw [callIds_cons] at hnodup
    -- a message that is no assistant's
    by_cases hturn' : startsTurn m = true
    · cases hturn with
      | skipped =>
        rw [intact_turn hturn']
        exact ih.cons_cons m
      | resolved hfilled => simp [startsTurn, hfilled.role] at hturn'
      | answered hfilled => simp [startsTurn, hfilled.role] at hturn'
    have hturn' := Bool.eq_false_iff.mpr hturn'
    by_cases htool : m.role = .tool ∧ m.isList = true
    · cases hturn with
      | skipped =>
        rw [intact_tool htool.1 htool.2]
        exact ih.cons_cons m
      | resolved hfilled => exact absurd (htool.1.symm.trans hfilled.role) (by decide)
      | answered hfilled => exact absurd (htool.1.symm.trans hfilled.role) (by decide)
    have hpass : m.role ≠ .tool ∨ m.isList = false := by
      rw [← Bool.not_eq_true]
      exact Decidable.not_and_iff_or_not.mp htool
    rw [intact_pass hpass hturn', List.append_nil]
    -- the message itself
    have hself {m' : ProviderModelMessage π} (hfilled : Filled m rest m') (hplaced : m.placed rest = []) : m' = m := by
      refine hfilled.same ?_
      rw [hfilled.parts, (@repairedContent_eq _ m rest hfilled.role).1.length_eq, hplaced, List.map_nil, List.append_nil]
    have hhead {m' : ProviderModelMessage π} {shown left : List (ProviderModelMessage π)} (hfilled : Filled m rest m')
        (hleft : left.Sublist shown) : (if m.placed rest = [] then m :: left else left).Sublist (m' :: shown) := by
      split
      · rename_i hplaced
        rw [hself hfilled hplaced]
        exact hleft.cons_cons m
      · exact hleft.cons m'
    cases hturn with
    | skipped hskip =>
      have hcalls := List.append_eq_nil_iff.mp (allCalls_of_skipped hskip)
      have hplaced : m.placed rest = [] := by rw [ProviderModelMessage.placed, hcalls.1]; rfl
      have hunresolved : m.unresolved rest = [] := by rw [ProviderModelMessage.unresolved, hcalls.2]; rfl
      rw [if_pos hplaced, hunresolved]
      exact ih.cons_cons m
    | resolved hfilled hnone =>
      rw [hnone]
      exact hhead hfilled ih
    | @answered m' t next rest' moved hfilled hsome hcollected hthin hhas hrole hparts hnext hbeside =>
      refine hhead hfilled (List.Sublist.cons t (List.Sublist.trans ?_ ih))
      have hids : ((m.unresolved rest).map (·.id)).Sublist (m.allCalls.map (·.id)) :=
        (List.filter_sublist.trans (List.sublist_append_right _ _)).map _
      have hother : ∀ id ∈ callIds rest, id ∉ (m.unresolved rest).map (·.id) := fun id hid hmem =>
        List.disjoint_of_nodup_append hnodup (hids.subset hmem) hid
      obtain rfl | ⟨n, rfl, hn, hlist⟩ := hnext
      · exact hthin.intact hother (fun id hid => ⟨hid, List.not_mem_nil⟩) (fun _ h => absurd h List.not_mem_nil)
          fun h => absurd h Bool.false_ne_true
      · have hasked : true = true → (!(m.unresolved rest).isEmpty) = true := fun _ => by simp [hsome]
        have hsub := hthin.intact hother (fun id hid => ⟨hid, @List.not_mem_nil _ id⟩) (fun _ h => absurd h List.not_mem_nil) hasked
        rwa [List.singleton_append, intact_tool hn hlist] at hsub

/-! ## The repair -/

theorem loop_repairToolPairs (messages : List (ProviderModelMessage π)) :
    Loop messages (repairToolPairs messages) (visits messages.length messages) := by
  rw [repairToolPairs_eq]
  exact loop_repairFrom (Nat.le_refl _)

theorem placeholder_inj {other : ToolCall} (h : (placeholder call : Part π) = placeholder other) : call.id = other.id :=
  Option.some.inj (congrArg Part.resultId h)

variable {messages : List (ProviderModelMessage π)}

theorem repaired (hids : (callIds messages).Nodup)
    (h : ∀ visit ∈ visits messages.length messages, strands visit = []) : Repaired messages (repairToolPairs messages) := by
  have hloop := loop_repairToolPairs messages
  obtain ⟨kept, moved, synthetic, hin, hsub, hshown, hout, hmoved, hsynthetic⟩ := hloop.parts hids
  refine ⟨hloop.paired, ⟨kept, moved, synthetic, hin, hsub, hshown, hout, hmoved, fun part hpart => ?_⟩,
    hloop.intact hids, ?_⟩
  · obtain ⟨call, hcall, rfl⟩ := List.mem_map.mp (hsynthetic.mem_iff.mp hpart)
    rcases List.mem_append.mp hcall with hcall | hcall
    · exact ⟨call, hcall, rfl⟩
    · obtain ⟨visit, hvisit, hcall⟩ := List.mem_flatMap.mp hcall
      exact absurd (h visit hvisit ▸ hcall) List.not_mem_nil
  · rw [repairToolPairs_eq (repairToolPairs messages), repairFrom_of_paired hloop.paired]

theorem strands_of_repaired (hids : (callIds messages).Nodup)
    (h : Repaired messages (repairToolPairs messages)) : ∀ visit ∈ visits messages.length messages, strands visit = [] := by
  have hloop := loop_repairToolPairs messages
  obtain ⟨kept, moved, synthetic, hin, -, -, hout, -, hsynthetic⟩ := hloop.parts hids
  obtain ⟨kept', moved', synthetic', hin', -, -, hout', -, horphans⟩ := h.parts
  have hsame : synthetic.Perm synthetic' := by
    refine (List.perm_append_left_iff (partsOf messages)).mp ?_
    exact ((hin.append_right _).trans hout.symm).trans (hout'.trans (hin'.symm.append_right _))
  intro visit hvisit
  refine List.eq_nil_iff_forall_not_mem.mpr fun call hcall => ?_
  have hstranded : call ∈ (visits messages.length messages).flatMap strands := List.mem_flatMap.mpr ⟨visit, hvisit, hcall⟩
  have hmem : (placeholder call : Part π) ∈ synthetic' :=
    hsame.mem_iff.mp (hsynthetic.mem_iff.mpr (List.mem_map_of_mem (List.mem_append_right _ hstranded)))
  obtain ⟨orphan, horphan, hsynth⟩ := horphans _ hmem
  have hnodup : ((orphans messages ++ (visits messages.length messages).flatMap strands).map (·.id)).Nodup := by
    obtain ⟨ids, hperm, hsub⟩ := hloop.subperm hids
    exact hperm.nodup_iff.mp (hids.sublist hsub)
  rw [List.map_append] at hnodup
  refine List.disjoint_of_nodup_append hnodup (List.mem_map_of_mem horphan) ?_
  rw [← placeholder_inj (hsynth : (placeholder call : Part π) = placeholder orphan)]
  exact List.mem_map_of_mem hstranded

/-- With distinct calls the repair does what is asked of it exactly when the loop strands no call of the
provider. -/
theorem repaired_iff (messages : List (ProviderModelMessage π)) (hids : (callIds messages).Nodup) :
    Repaired messages (repairToolPairs messages) ↔ ∀ visit ∈ visits messages.length messages, strands visit = [] :=
  ⟨strands_of_repaired hids, repaired hids⟩

def conversation : List (ProviderModelMessage Unit) :=
  [⟨.assistant, .parts [.toolCall [1] [2] false none, .toolCall [3] [4] true none], none⟩,
    ⟨.assistant, .parts [.other ()], none⟩, ⟨.tool, .parts [.toolResult [1] [2] (.other ()) none], none⟩]

theorem repaired_iff_conversation :
    Repaired conversation (repairToolPairs conversation) ↔
      ∀ visit ∈ visits conversation.length conversation, strands visit = [] :=
  repaired_iff conversation (by decide)

def late : List (ProviderModelMessage Unit) :=
  [⟨.assistant, .parts [.toolCall [1] [2] true none], none⟩, ⟨.assistant, .parts [.other ()], none⟩,
    ⟨.tool, .parts [.toolResult [1] [2] (.other ()) none], none⟩]

theorem late_shadowed : (callIds late).Nodup ∧ ¬ Repaired late (repairToolPairs late) := by
  have hids : (callIds late).Nodup := by decide
  refine ⟨hids, fun h => ?_⟩
  exact absurd (strands_of_repaired hids h) (by decide)

end Veryfront.Chat.ToolPairs
