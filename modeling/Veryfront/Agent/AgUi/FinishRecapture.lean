import Veryfront.Agent.AgUi.FinishExcerpts

/-!
# An envelope captured again

The markers a capture writes cost it nothing, and the capture of its envelope pays for them. The walk below goes over the
data with what both captures have left.
-/

namespace Veryfront.Agent.AgUi.MessageFinish

variable {ν : Type}

/-! ## Both budgets -/

structure Ledger where
  capture : Context
  again : Context
  captureShort : Bool := false
  againShort : Bool := false

/-- The capture of the envelope reads the text that the capture has left. A text it cannot pay for stands only if it is the
marker of a spent budget, and too little is left for a cut. -/
def Ledger.reread (ledger : Ledger) (text : Text) : Option Ledger :=
  match ledger.again.visit with
  | none => if text = truncatedBudget then some { ledger with againShort := true } else none
  | some again =>
    match keepString again text with
    | some again => some { ledger with again }
    | none =>
      if text = truncatedBudget ∧ again.remainingBytes ≤ getUtf8ByteLength stringTruncatedSuffix then
        some { ledger with again, againShort := true }
      else none

def Ledger.revisit (ledger : Ledger) : Option Ledger := ledger.again.visit.map fun again => { ledger with again }

mutual

/-- `none` once a value comes out otherwise than the capture has left it. -/
def retrace : Json ν → (depth : Nat) → Ledger → Option Ledger
  | input, depth, ledger =>
    match ledger.capture.visit with
    | none => { ledger with captureShort := true }.reread truncatedBudget
    | some capture =>
      match input with
      | .null => { ledger with capture }.revisit
      | .bool _ => { ledger with capture }.revisit
      | .num _ => { ledger with capture }.revisit
      | .str value =>
        let kept := truncateString capture value
        let short := kept.truncated && kept.value = truncatedBudget
        { ledger with capture := kept.context, captureShort := ledger.captureShort || short }.reread kept.value
      | .arr items =>
        if maxDepth ≤ depth then { ledger with capture }.reread truncatedNestedData
        else
          ({ ledger with capture }.revisit.bind (retraceItems items (arrayLimit false items) (depth + 1))).bind fun ledger =>
            if arrayLimit false items < items.length then
              ledger.reread (truncatedItems (items.length - arrayLimit false items))
            else some ledger
      | .obj properties =>
        if maxDepth ≤ depth then { ledger with capture }.reread truncatedNestedData
        else { ledger with capture }.revisit.bind (retraceProperties properties 0 (depth + 1))

def retraceItems : List (Json ν) → (limit : Nat) → (depth : Nat) → Ledger → Option Ledger
  | [], _, _, ledger => some ledger
  | _ :: _, 0, _, ledger => some ledger
  | item :: items, limit + 1, depth, ledger => (retrace item depth ledger).bind (retraceItems items limit depth)

def retraceProperties : List (Text × Json ν) → (copiedKeys : Nat) → (depth : Nat) → Ledger → Option Ledger
  | [], _, _, ledger => some ledger
  | (key, value) :: properties, copiedKeys, depth, ledger =>
    if !isSupportedObjectKey key then retraceProperties properties copiedKeys depth ledger
    else if maxObjectKeys ≤ copiedKeys + 1 then retrace value depth ledger
    else (retrace value depth ledger).bind (retraceProperties properties (copiedKeys + 1) depth)

end

def paysForMarkers (object : Json ν) (maxOutputBytes : Nat) : Bool :=
  match retrace object 0 { capture := ⟨maxOutputBytes, maxNodes⟩, again := ⟨maxOutputBytes, maxNodes⟩ } with
  | some ledger => !ledger.againShort || ledger.captureShort
  | none => false

/-! ## What a walk that goes through has seen -/

section Agreement

variable {α β γ : Type}

structure Agrees (ledger after : Ledger) (first second : Snapshot α) : Prop where
  value : second.value = first.value
  capture : after.capture = first.context
  again : after.again = second.context
  captureShort : after.captureShort = true ↔ ledger.captureShort = true ∨ Reason.aggregateBudgetExhausted ∈ first.reasons
  againShort : after.againShort = true ↔ ledger.againShort = true ∨ second.reasons ≠ []
  reasons : ∀ r ∈ second.reasons, r = Reason.aggregateBudgetExhausted
  free : ledger.capture = ledger.again → first.reasons = [] → after.capture = after.again ∧ second.reasons = []

/-- The walk stops exactly where the second capture departs from the first. -/
def Retraces (ledger : Ledger) (first second : Snapshot α) : Option Ledger → Prop
  | none => second.value ≠ first.value ∧ ¬ (ledger.capture = ledger.again ∧ first.reasons = [])
  | some after => Agrees ledger after first second

/-- `whole` takes `first` and then `rest`. -/
structure Joined (first : Snapshot α) (rest : Snapshot β) (whole : Snapshot γ) : Prop where
  context : whole.context = rest.context
  reasons : ∀ r, r ∈ whole.reasons ↔ r ∈ first.reasons ∨ r ∈ rest.reasons

theorem Joined.nil_iff {first : Snapshot α} {rest : Snapshot β} {whole : Snapshot γ} (h : Joined first rest whole) :
    whole.reasons = [] ↔ first.reasons = [] ∧ rest.reasons = [] := by
  simp only [List.eq_nil_iff_forall_not_mem, h.reasons, not_or, forall_and]

variable {walk : Option Ledger}

variable {ledger : Ledger}

theorem Retraces.join {first second : Snapshot α} (rest : Snapshot β) {restSecond : Snapshot β}
    {whole wholeSecond : Snapshot γ} {next : Ledger → Option Ledger} (h : Retraces ledger first second walk)
    (hnext : ∀ mid, Agrees ledger mid first second → Retraces mid rest restSecond (next mid)) (hwhole : Joined first rest whole)
    (hwholeSecond : Joined second restSecond wholeSecond)
    (hvalue : wholeSecond.value = whole.value ↔ second.value = first.value ∧ restSecond.value = rest.value) :
    Retraces ledger whole wholeSecond (walk.bind next) := by
  cases walk with
  | none =>
    obtain ⟨hne, hfree⟩ := h
    exact ⟨fun heq => hne (hvalue.mp heq).1, fun hno => hfree ⟨hno.1, (hwhole.nil_iff.mp hno.2).1⟩⟩
  | some mid =>
    have hmid : Agrees ledger mid first second := h
    have hrest := hnext mid hmid
    rw [Option.bind_some]
    cases hwalk : next mid with
    | none =>
      rw [hwalk] at hrest
      obtain ⟨hne, hfree⟩ := hrest
      refine ⟨fun heq => hne (hvalue.mp heq).2, fun hno => ?_⟩
      obtain ⟨hfirst, hnil⟩ := hwhole.nil_iff.mp hno.2
      exact hfree ⟨(hmid.free hno.1 hfirst).1, hnil⟩
    | some after =>
      rw [hwalk] at hrest
      have hafter : Agrees mid after rest restSecond := hrest
      exact {
        value := hvalue.mpr ⟨hmid.value, hafter.value⟩
        capture := hafter.capture.trans hwhole.context.symm
        again := hafter.again.trans hwholeSecond.context.symm
        captureShort := by rw [hafter.captureShort, hmid.captureShort, hwhole.reasons, or_assoc]
        againShort := by
          rw [hafter.againShort, hmid.againShort, or_assoc, ne_eq wholeSecond.reasons, hwholeSecond.nil_iff, not_and_or]
        reasons := fun r hr => ((hwholeSecond.reasons r).mp hr).elim (hmid.reasons r) (hafter.reasons r)
        free := fun heq hnil => by
          obtain ⟨hfirst, hrestNil⟩ := hwhole.nil_iff.mp hnil
          obtain ⟨hmidSame, hsecondNil⟩ := hmid.free heq hfirst
          obtain ⟨hafterSame, hrestSecondNil⟩ := hafter.free hmidSame hrestNil
          exact ⟨hafterSame, hwholeSecond.nil_iff.mpr ⟨hsecondNil, hrestSecondNil⟩⟩ }

theorem Retraces.wrap {first second : Snapshot α} {whole wholeSecond : Snapshot β}
    (h : Retraces ledger first second walk) (hcontext : whole.context = first.context)
    (hreasons : Reason.aggregateBudgetExhausted ∈ whole.reasons ↔ Reason.aggregateBudgetExhausted ∈ first.reasons)
    (hnil : whole.reasons = [] → first.reasons = []) (hagain : wholeSecond.context = second.context)
    (hagainReasons : ∀ r, r ∈ wholeSecond.reasons ↔ r ∈ second.reasons) (hvalue : wholeSecond.value = whole.value ↔ second.value = first.value) :
    Retraces ledger whole wholeSecond walk := by
  cases walk with
  | none => exact ⟨fun heq => h.1 (hvalue.mp heq), fun hno => h.2 ⟨hno.1, hnil hno.2⟩⟩
  | some after =>
    have hafter : Agrees ledger after first second := h
    exact {
      value := hvalue.mpr hafter.value
      capture := hafter.capture.trans hcontext.symm
      again := hafter.again.trans hagain.symm
      captureShort := by rw [hafter.captureShort, hreasons]
      againShort := by simp only [hafter.againShort, ne_eq, List.eq_nil_iff_forall_not_mem, hagainReasons]
      reasons := fun r hr => hafter.reasons r ((hagainReasons r).mp hr)
      free := fun heq hno => by
        obtain ⟨hsame, hsecondNil⟩ := hafter.free heq (hnil hno)
        rw [List.eq_nil_iff_forall_not_mem] at hsecondNil ⊢
        exact ⟨hsame, fun r hr => hsecondNil r ((hagainReasons r).mp hr)⟩ }

theorem Retraces.visited {capture again : Context} {first second : Snapshot α}
    (hcapture : ledger.capture.visit = some capture) (hagain : ledger.again.visit = some again)
    (h : Retraces { ledger with capture, again } first second walk) : Retraces ledger first second walk := by
  have hfree : ledger.capture = ledger.again → capture = again := by
    intro heq
    rw [heq, hagain] at hcapture
    exact (Option.some.inj hcapture).symm
  cases walk with
  | none => exact ⟨h.1, fun hno => h.2 ⟨hfree hno.1, hno.2⟩⟩
  | some after =>
    have hafter : Agrees { ledger with capture, again } after first second := h
    exact { hafter with free := fun heq hnil => hafter.free (hfree heq) hnil }

end Agreement

/-! ## Texts -/

variable {context : Context}

theorem snapshotObjectValue_unvisited (preserve : Bool) (input : Json ν) (depth : Nat)
    (h : context.visit = none) :
    snapshotObjectValue preserve input depth context =
      ⟨.str truncatedBudget, [Reason.aggregateBudgetExhausted], context⟩ := by
  cases input <;> simp only [snapshotObjectValue, h]

theorem snapshotObjectValue_str (preserve : Bool) (value : Text) (depth : Nat) {visited : Context}
    (h : context.visit = some visited) :
    (snapshotObjectValue preserve (.str value) depth context : Snapshot (Json ν)) = snapshotString value visited := by
  simp only [snapshotObjectValue, h]

variable {depth : Nat}

theorem snapshotObjectValue_arr (preserve : Bool) (items : List (Json ν)) (hdepth : ¬ maxDepth ≤ depth)
    {visited : Context} (h : context.visit = some visited) :
    snapshotObjectValue preserve (.arr items) depth context =
      closeArray items.length (arrayLimit preserve items)
        (snapshotItems preserve items (arrayLimit preserve items) (depth + 1) [] visited) := by
  simp only [snapshotObjectValue, h, if_neg hdepth]

theorem snapshotObjectValue_obj (preserve : Bool) (properties : List (Text × Json ν)) (hdepth : ¬ maxDepth ≤ depth)
    {visited : Context} (h : context.visit = some visited) :
    let taken := snapshotProperties preserve properties 0 (depth + 1) [] visited
    snapshotObjectValue preserve (.obj properties) depth context = ⟨.obj taken.value, taken.reasons, taken.context⟩ := by
  simp only [snapshotObjectValue, h, if_neg hdepth]

variable {reasons : List Text}

theorem retraces_reread (base ledger : Ledger) {text : Text} (depth : Nat)
    (hagain : ledger.again = base.again) (hagainShort : ledger.againShort = base.againShort)
    (hshort : ledger.captureShort = true ↔ base.captureShort = true ∨ Reason.aggregateBudgetExhausted ∈ reasons)
    (hfree : base.capture = base.again → reasons = [] →
      ∃ visited, base.again.visit = some visited ∧ keepString visited text = some ledger.capture) :
    Retraces base ⟨(.str text : Json ν), reasons, ledger.capture⟩ (snapshotObjectValue true (.str text) depth base.again)
      (ledger.reread text) := by
  rw [Ledger.reread, hagain]
  cases hvisit : base.again.visit with
  | none =>
    rw [snapshotObjectValue_unvisited _ _ _ hvisit]
    have hpaid : ¬ (base.capture = base.again ∧ reasons = []) := fun hno => by
      obtain ⟨visited, hvisited, -⟩ := hfree hno.1 hno.2
      simp [hvisit] at hvisited
    by_cases htext : text = truncatedBudget
    · simp only [if_pos htext]
      exact {
        value := by rw [htext]
        capture := rfl
        again := rfl
        captureShort := hshort
        againShort := by simp
        reasons := by simp
        free := fun heq hnil => absurd ⟨heq, hnil⟩ hpaid }
    · simp only [if_neg htext]
      refine ⟨fun heq => htext ?_, hpaid⟩
      injection heq with heq
      exact heq.symm
  | some again =>
    rw [snapshotObjectValue_str _ _ _ hvisit]
    cases hkeep : keepString again text with
    | some after =>
      simp only [hkeep, snapshotString, truncateString_of_keep hkeep]
      exact {
        value := rfl
        capture := rfl
        again := rfl
        captureShort := hshort
        againShort := by simp [hagainShort]
        reasons := by simp
        free := fun heq hnil => by
          obtain ⟨visited, hvisited, hkept⟩ := hfree heq hnil
          obtain rfl := Option.some.inj (hvisit.symm.trans hvisited)
          exact ⟨(Option.some.inj (hkeep.symm.trans hkept)).symm, rfl⟩ }
    | none =>
      have hpaid : ¬ (base.capture = base.again ∧ reasons = []) := fun hno => by
        obtain ⟨visited, hvisited, hkept⟩ := hfree hno.1 hno.2
        obtain rfl := Option.some.inj (hvisit.symm.trans hvisited)
        simp [hkeep] at hkept
      by_cases hself : text = truncatedBudget ∧ again.remainingBytes ≤ getUtf8ByteLength stringTruncatedSuffix
      · simp only [hkeep, if_pos hself, snapshotString, truncateString_short hkeep hself.2]
        exact {
          value := by rw [hself.1]
          capture := rfl
          again := rfl
          captureShort := hshort
          againShort := by simp
          reasons := by simp
          free := fun heq hnil => absurd ⟨heq, hnil⟩ hpaid }
      · simp only [hkeep, if_neg hself]
        refine ⟨fun heq => hself ?_, hpaid⟩
        rw [snapshotString] at heq
        injection heq with heq
        exact (truncateString_eq_self hkeep).mp heq

/-! ## Items and properties one after the other -/

/-- A snapshot that starts with reasons noted has those besides its own. -/
structure Noted {α : Type} (reasons : List Text) (snapshot noting : Snapshot α) : Prop where
  value : noting.value = snapshot.value
  context : noting.context = snapshot.context
  reasons : ∀ r, r ∈ noting.reasons ↔ r ∈ reasons ∨ r ∈ snapshot.reasons

theorem snapshotItems_noted (preserve : Bool) (items : List (Json ν)) (limit depth : Nat) (reasons : List Text)
    (context : Context) :
    Noted reasons (snapshotItems preserve items limit depth [] context)
      (snapshotItems preserve items limit depth reasons context) := by
  induction items generalizing limit reasons context with
  | nil => exact ⟨rfl, rfl, fun r => by simp [snapshotItems]⟩
  | cons item items ih =>
    cases limit with
    | zero => exact ⟨rfl, rfl, fun r => by simp [snapshotItems]⟩
    | succ limit =>
      simp only [snapshotItems]
      have hnoting := ih limit (addCaptureReasons reasons (snapshotObjectValue preserve item depth context).reasons)
        (snapshotObjectValue preserve item depth context).context
      have hown := ih limit (addCaptureReasons [] (snapshotObjectValue preserve item depth context).reasons)
        (snapshotObjectValue preserve item depth context).context
      refine ⟨?_, hnoting.context.trans hown.context.symm, fun r => ?_⟩
      · rw [hnoting.value, hown.value]
      · rw [hnoting.reasons, hown.reasons, mem_addCaptureReasons, mem_addCaptureReasons]
        simp [or_assoc]

theorem snapshotItems_cons (preserve : Bool) (item : Json ν) (items : List (Json ν)) (limit depth : Nat) (context : Context) :
    let first := snapshotObjectValue preserve item depth context
    let rest := snapshotItems preserve items limit depth [] first.context
    let whole := snapshotItems preserve (item :: items) (limit + 1) depth [] context
    whole.value = first.value :: rest.value ∧ Joined first rest whole := by
  simp only [snapshotItems]
  have hnoted := snapshotItems_noted preserve items limit depth
    (addCaptureReasons [] (snapshotObjectValue preserve item depth context).reasons)
    (snapshotObjectValue preserve item depth context).context
  refine ⟨by rw [hnoted.value], hnoted.context, fun r => ?_⟩
  rw [hnoted.reasons, mem_addCaptureReasons]
  simp

theorem snapshotItems_length (preserve : Bool) (items : List (Json ν)) (limit depth : Nat) (reasons : List Text)
    (context : Context) : (snapshotItems preserve items limit depth reasons context).value.length = min items.length limit := by
  induction items generalizing limit reasons context with
  | nil => simp [snapshotItems]
  | cons item items ih =>
    cases limit with
    | zero => simp [snapshotItems]
    | succ limit => simp [snapshotItems, ih]

theorem snapshotItems_snoc (preserve : Bool) (items : List (Json ν)) (item : Json ν) (depth : Nat) (context : Context) :
    let first := snapshotItems preserve items items.length depth [] context
    let last := snapshotObjectValue preserve item depth first.context
    let whole := snapshotItems preserve (items ++ [item]) (items.length + 1) depth [] context
    whole.value = first.value ++ [last.value] ∧ Joined first last whole := by
  induction items generalizing context with
  | nil =>
    obtain ⟨hvalue, hjoined⟩ := snapshotItems_cons preserve item [] 0 depth context
    refine ⟨hvalue, hjoined.context, fun r => ?_⟩
    rw [List.length_nil, Nat.zero_add, List.nil_append, hjoined.reasons]
    simp [snapshotItems]
  | cons head items ih =>
    obtain ⟨hvalue, hjoined⟩ := snapshotItems_cons preserve head (items ++ [item]) (items.length + 1) depth context
    obtain ⟨hfirst, hfirstJoined⟩ := snapshotItems_cons preserve head items items.length depth context
    obtain ⟨hlast, hlastJoined⟩ := ih (snapshotObjectValue preserve head depth context).context
    simp only [List.length_cons, List.cons_append, hfirstJoined.context]
    refine ⟨by rw [hvalue, hlast, hfirst, List.cons_append], hjoined.context.trans hlastJoined.context, fun r => ?_⟩
    rw [hjoined.reasons, hlastJoined.reasons, hfirstJoined.reasons, or_assoc]

theorem snapshotProperties_noted (preserve : Bool) (properties : List (Text × Json ν)) (copiedKeys depth : Nat)
    (reasons : List Text) (context : Context) :
    Noted reasons (snapshotProperties preserve properties copiedKeys depth [] context)
      (snapshotProperties preserve properties copiedKeys depth reasons context) := by
  induction properties generalizing copiedKeys reasons context with
  | nil => exact ⟨rfl, rfl, fun r => by simp [snapshotProperties]⟩
  | cons property properties ih =>
    obtain ⟨key, value⟩ := property
    simp only [snapshotProperties]
    split
    · have hnoting := ih copiedKeys (addCaptureReason reasons Reason.objectKeyUnsupported) context
      have hown := ih copiedKeys (addCaptureReason [] Reason.objectKeyUnsupported) context
      refine ⟨hnoting.value.trans hown.value.symm, hnoting.context.trans hown.context.symm, fun r => ?_⟩
      rw [hnoting.reasons, hown.reasons, mem_addCaptureReason, mem_addCaptureReason]
      simp [or_assoc]
    split
    · refine ⟨rfl, rfl, fun r => ?_⟩
      split <;> simp [mem_addCaptureReason, mem_addCaptureReasons, or_assoc]
    · have hnoting := ih (copiedKeys + 1) (addCaptureReasons reasons (snapshotObjectValue preserve value depth context).reasons)
        (snapshotObjectValue preserve value depth context).context
      have hown := ih (copiedKeys + 1) (addCaptureReasons [] (snapshotObjectValue preserve value depth context).reasons)
        (snapshotObjectValue preserve value depth context).context
      refine ⟨?_, hnoting.context.trans hown.context.symm, fun r => ?_⟩
      · rw [hnoting.value, hown.value]
      · rw [hnoting.reasons, hown.reasons, mem_addCaptureReasons, mem_addCaptureReasons]
        simp [or_assoc]

theorem snapshotProperties_cons (preserve : Bool) {key : Text} (hkey : isSupportedObjectKey key = true) (value : Json ν)
    (properties : List (Text × Json ν)) {copiedKeys : Nat} (hroom : ¬ maxObjectKeys ≤ copiedKeys + 1) (depth : Nat)
    (context : Context) :
    let first := snapshotObjectValue preserve value depth context
    let rest := snapshotProperties preserve properties (copiedKeys + 1) depth [] first.context
    let whole := snapshotProperties preserve ((key, value) :: properties) copiedKeys depth [] context
    whole.value = (key, first.value) :: rest.value ∧ Joined first rest whole := by
  simp only [snapshotProperties, hkey, Bool.not_true, Bool.false_eq_true, if_false, if_neg hroom]
  have hnoted := snapshotProperties_noted preserve properties (copiedKeys + 1) depth
    (addCaptureReasons [] (snapshotObjectValue preserve value depth context).reasons)
    (snapshotObjectValue preserve value depth context).context
  refine ⟨by rw [hnoted.value], hnoted.context, fun r => ?_⟩
  rw [hnoted.reasons, mem_addCaptureReasons]
  simp

/-! ## Containers -/

theorem closeArray_whole {length : Nat} (taken : Snapshot (List (Json ν))) :
    closeArray length length taken = ⟨.arr taken.value, taken.reasons, taken.context⟩ := by
  rw [closeArray, if_neg (Nat.lt_irrefl _)]

theorem arrayLimit_short {copies : List (Json ν)} (h : copies.length ≤ maxArrayItems) : arrayLimit true copies = copies.length := by
  have hmarker : hasArrayTruncationMarker copies = false := by
    rw [hasArrayTruncationMarker, Bool.and_eq_false_iff]
    left
    simp
    omega
  rw [arrayLimit, hmarker, Bool.and_false, if_neg Bool.false_ne_true]
  omega

theorem arrayLimit_marked {copies : List (Json ν)} (h : copies.length = maxArrayItems) (count : Nat) (hcount : 0 < count) :
    arrayLimit true (copies ++ [.str (truncatedItems count)]) = maxArrayItems + 1 := by
  have hlength : (copies ++ [Json.str (truncatedItems count)]).length = maxArrayItems + 1 := by simp [h]
  have hmarker : hasArrayTruncationMarker (copies ++ [Json.str (truncatedItems count)]) = true := by
    rw [hasArrayTruncationMarker, hlength, List.getLast?_concat]
    simp [isTruncatedItems_truncatedItems hcount]
  rw [arrayLimit, hmarker, Bool.and_true, if_pos rfl, hlength]

variable {capture : Context}

theorem retraces_nested (ledger : Ledger) (depth : Nat) :
    Retraces ledger ⟨(.str truncatedNestedData : Json ν), [Reason.depthReached], capture⟩
      (snapshotObjectValue true (.str truncatedNestedData) depth ledger.again)
      (({ ledger with capture } : Ledger).reread truncatedNestedData) :=
  retraces_reread ledger { ledger with capture } depth rfl rfl
    ⟨.inl, fun h => h.elim id fun hmem => absurd hmem (by decide)⟩ (fun _ hno => nomatch hno)

variable {ledger : Ledger}

theorem retraces_unvisited (depth : Nat) :
    Retraces ledger ⟨(.str truncatedBudget : Json ν), [Reason.aggregateBudgetExhausted], ledger.capture⟩
      (snapshotObjectValue true (.str truncatedBudget) depth ledger.again)
      (({ ledger with captureShort := true } : Ledger).reread truncatedBudget) :=
  retraces_reread ledger { ledger with captureShort := true } depth rfl rfl (by simp) (fun _ hno => nomatch hno)

theorem retraces_unentered (hcapture : ledger.capture.visit = some capture)
    (hagain : ledger.again.visit = none) (first : Snapshot (Json ν)) (hvalue : first.value ≠ .str truncatedBudget) (depth : Nat) :
    Retraces ledger first (snapshotObjectValue true first.value depth ledger.again) none := by
  rw [snapshotObjectValue_unvisited _ _ _ hagain]
  refine ⟨hvalue.symm, fun hno => ?_⟩
  rw [hno.1, hagain] at hcapture
  nomatch hcapture

theorem retraces_scalar {scalar : Json ν}
    (hcapture : ledger.capture.visit = some capture) (hvalue : scalar ≠ .str truncatedBudget)
    (hscalar : ∀ (preserve : Bool) (context visited : Context), context.visit = some visited →
      snapshotObjectValue preserve scalar depth context = ⟨scalar, [], visited⟩) :
    let first := snapshotObjectValue false scalar depth ledger.capture
    Retraces ledger first (snapshotObjectValue true first.value depth ledger.again)
      (({ ledger with capture } : Ledger).revisit) := by
  rw [hscalar _ _ _ hcapture]
  cases hagain : ledger.again.visit with
  | none =>
    simp only [Ledger.revisit, hagain, Option.map_none]
    exact retraces_unentered hcapture hagain ⟨scalar, [], capture⟩ hvalue depth
  | some again =>
    simp only [Ledger.revisit, hagain, Option.map_some, hscalar _ _ _ hagain]
    refine Retraces.visited hcapture hagain ?_
    exact {
      value := rfl
      capture := rfl
      again := rfl
      captureShort := by simp
      againShort := by simp
      reasons := by simp
      free := fun heq _ => ⟨heq, rfl⟩ }

theorem retraces_refl {α : Type} (ledger : Ledger) :
    Retraces ledger (⟨[], [], ledger.capture⟩ : Snapshot (List α)) ⟨[], [], ledger.again⟩ (some ledger) :=
  { value := rfl
    capture := rfl
    again := rfl
    captureShort := by simp
    againShort := by simp
    reasons := by simp
    free := fun heq _ => ⟨heq, rfl⟩ }

theorem retraces_closeArray (ledger : Ledger) {items : List (Json ν)} (hdepth : ¬ maxDepth ≤ depth)
    (hvisit : context.visit = some ledger.again) {walk : Option Ledger} {taken : Snapshot (List (Json ν))}
    (hlength : taken.value.length = arrayLimit false items)
    (h : Retraces ledger taken (snapshotItems true taken.value taken.value.length (depth + 1) [] ledger.again) walk) :
    Retraces ledger (closeArray items.length (arrayLimit false items) taken)
      (snapshotObjectValue true (closeArray items.length (arrayLimit false items) taken).value depth context)
      (walk.bind fun ledger =>
        if arrayLimit false items < items.length then ledger.reread (truncatedItems (items.length - arrayLimit false items))
        else some ledger) := by
  have hlimit : arrayLimit false items = min items.length maxArrayItems := rfl
  by_cases hcut : arrayLimit false items < items.length
  · simp only [if_pos hcut]
    have hfull : taken.value.length = maxArrayItems := by omega
    have hmarked := arrayLimit_marked hfull (items.length - arrayLimit false items) (by omega)
    obtain ⟨hvalue, hjoined⟩ := snapshotItems_snoc true taken.value
      (.str (truncatedItems (items.length - arrayLimit false items))) (depth + 1) ledger.again
    rw [hfull] at hvalue hjoined
    have hlast : (taken.value ++ [Json.str (truncatedItems (items.length - arrayLimit false items))]).length =
        maxArrayItems + 1 := by rw [List.length_append, hfull, List.length_singleton]
    rw [hfull] at h
    rw [closeArray, if_pos hcut]
    simp only
    rw [snapshotObjectValue_arr true _ hdepth hvisit, hmarked, hlast, closeArray_whole]
    refine h.join ⟨.str (truncatedItems (items.length - arrayLimit false items)), [Reason.arrayTruncated], taken.context⟩
      (fun mid hmid => ?_) ⟨rfl, fun r => by simp [mem_addCaptureReason]⟩ ⟨hjoined.context, hjoined.reasons⟩ ?_
    · rw [← hmid.capture, ← hmid.again]
      exact retraces_reread mid mid (depth + 1) rfl rfl
        ⟨.inl, fun h => h.elim id fun hmem => absurd hmem (by decide)⟩ (fun _ hno => by cases hno)
    · rw [hvalue, Json.arr.injEq]
      constructor
      · intro heq
        obtain ⟨hitems, hmarker⟩ := List.append_inj' heq rfl
        exact ⟨hitems, List.singleton_inj.mp hmarker⟩
      · rintro ⟨hitems, hmarker⟩
        rw [hitems, hmarker]
  · simp only [if_neg hcut]
    have hshort : arrayLimit true taken.value = taken.value.length := arrayLimit_short (by omega)
    rw [closeArray, if_neg hcut]
    simp only
    rw [snapshotObjectValue_arr true _ hdepth hvisit, hshort, closeArray_whole,
      show (walk.bind fun ledger => some ledger) = walk from Option.bind_fun_some walk]
    exact h.wrap rfl Iff.rfl id rfl (fun _ => Iff.rfl) (by simp)

mutual

theorem retraces_value (input : Json ν) (depth : Nat) (ledger : Ledger) :
    let first := snapshotObjectValue false input depth ledger.capture
    Retraces ledger first (snapshotObjectValue true first.value depth ledger.again) (retrace input depth ledger) := by
  intro first
  cases hvisit : ledger.capture.visit with
  | none =>
    have hfirst : first = ⟨.str truncatedBudget, [Reason.aggregateBudgetExhausted], ledger.capture⟩ :=
      snapshotObjectValue_unvisited _ _ _ hvisit
    have hwalk : retrace input depth ledger = ({ ledger with captureShort := true } : Ledger).reread truncatedBudget := by
      cases input <;> simp only [retrace, hvisit]
    rw [hfirst, hwalk]
    exact retraces_unvisited depth
  | some capture =>
    cases input with
    | null | bool _ | num _ =>
      simp only [retrace, hvisit]
      exact retraces_scalar hvisit (by simp) fun _ _ _ h => by simp only [snapshotObjectValue, h]
    | str value =>
      simp only [retrace, hvisit]
      rw [show first = snapshotString value capture from snapshotObjectValue_str _ _ _ hvisit]
      refine retraces_reread _ _ depth rfl rfl ?_ fun hsame hnil => ?_
      · simp only [Bool.or_eq_true, Bool.and_eq_true, decide_eq_true_eq]
        cases (truncateString capture value).truncated with
        | false => simp
        | true =>
          have hne : Reason.aggregateBudgetExhausted ≠ Reason.stringTruncated := by decide
          by_cases hbudget : (truncateString capture value).value = truncatedBudget <;> simp [hbudget, hne]
      · cases hkeep : keepString capture value with
        | some after =>
          rw [truncateString_of_keep hkeep]
          exact ⟨capture, hsame ▸ hvisit, hkeep⟩
        | none =>
          have htruncated : (truncateString capture value).truncated = true := by
            simp only [truncateString, hkeep]
            split
            · rfl
            split <;> rfl
          simp [htruncated] at hnil
    | arr items =>
      by_cases hdepth : maxDepth ≤ depth
      · have hfirst : first = ⟨.str truncatedNestedData, [Reason.depthReached], capture⟩ := by
          simp only [first, snapshotObjectValue, hvisit, if_pos hdepth]
        simp only [hfirst, retrace, hvisit, if_pos hdepth]
        exact retraces_nested ledger depth
      have hfirst := snapshotObjectValue_arr false items hdepth hvisit
      simp only [first, hfirst, retrace, hvisit, if_neg hdepth]
      cases hagain : ledger.again.visit with
      | none =>
        simp only [Ledger.revisit, hagain, Option.map_none, Option.bind_none]
        refine retraces_unentered hvisit hagain _ ?_ depth
        rw [closeArray]
        split <;> simp
      | some again =>
        simp only [Ledger.revisit, hagain, Option.map_some, Option.bind_some]
        refine Retraces.visited hvisit hagain (retraces_closeArray { ledger with capture, again } hdepth hagain ?_ ?_)
        · rw [snapshotItems_length]
          exact Nat.min_eq_right (Nat.min_le_left ..)
        · exact retraces_items items (arrayLimit false items) (depth + 1) { ledger with capture, again }
    | obj properties =>
      by_cases hdepth : maxDepth ≤ depth
      · have hfirst : first = ⟨.str truncatedNestedData, [Reason.depthReached], capture⟩ := by
          simp only [first, snapshotObjectValue, hvisit, if_pos hdepth]
        simp only [hfirst, retrace, hvisit, if_pos hdepth]
        exact retraces_nested ledger depth
      have hfirst := snapshotObjectValue_obj false properties hdepth hvisit
      simp only [first, hfirst, retrace, hvisit, if_neg hdepth]
      cases hagain : ledger.again.visit with
      | none =>
        simp only [Ledger.revisit, hagain, Option.map_none, Option.bind_none]
        exact retraces_unentered hvisit hagain _ (by simp) depth
      | some again =>
        simp only [Ledger.revisit, hagain, Option.map_some, Option.bind_some, snapshotObjectValue_obj true _ hdepth hagain]
        exact Retraces.visited hvisit hagain
          ((retraces_properties properties 0 (depth + 1) { ledger with capture, again }).wrap rfl Iff.rfl id rfl
            (fun _ => Iff.rfl) (by simp))

theorem retraces_items (items : List (Json ν)) (limit depth : Nat) (ledger : Ledger) :
    let first := snapshotItems false items limit depth [] ledger.capture
    Retraces ledger first (snapshotItems true first.value first.value.length depth [] ledger.again)
      (retraceItems items limit depth ledger) := by
  match items, limit with
  | [], _ => exact retraces_refl ledger
  | _ :: _, 0 => exact retraces_refl ledger
  | item :: items, limit + 1 =>
    obtain ⟨hvalue, hjoined⟩ := snapshotItems_cons false item items limit depth ledger.capture
    have hitem := retraces_value item depth ledger
    obtain ⟨hsecond, hsecondJoined⟩ := snapshotItems_cons true
      (snapshotObjectValue false item depth ledger.capture).value
      (snapshotItems false items limit depth [] (snapshotObjectValue false item depth ledger.capture).context).value
      (snapshotItems false items limit depth [] (snapshotObjectValue false item depth ledger.capture).context).value.length
      depth ledger.again
    simp only [hvalue, List.length_cons]
    refine hitem.join _ (fun mid hmid => ?_) hjoined hsecondJoined ?_
    · have hitems := retraces_items items limit depth mid
      rwa [hmid.capture, hmid.again] at hitems
    · rw [hsecond, hvalue, List.cons.injEq]

theorem retraces_properties (properties : List (Text × Json ν)) (copiedKeys depth : Nat) (ledger : Ledger) :
    let first := snapshotProperties false properties copiedKeys depth [] ledger.capture
    Retraces ledger first (snapshotProperties true first.value copiedKeys depth [] ledger.again)
      (retraceProperties properties copiedKeys depth ledger) := by
  match properties with
  | [] => exact retraces_refl ledger
  | (key, value) :: properties =>
    by_cases hkey : isSupportedObjectKey key = true
    · by_cases hroom : maxObjectKeys ≤ copiedKeys + 1
      · have hvalue := retraces_value value depth ledger
        simp only [snapshotProperties, retraceProperties, hkey, hroom, Bool.not_true, Bool.false_eq_true, if_true, if_false]
        have hne : Reason.aggregateBudgetExhausted ≠ Reason.objectKeysTruncated := by decide
        refine hvalue.wrap rfl ?_ (fun hnil => ?_) rfl (fun r => ?_) (by simp)
        · split <;> simp [mem_addCaptureReason, mem_addCaptureReasons, hne]
        · rw [List.eq_nil_iff_forall_not_mem] at hnil ⊢
          intro r hr
          refine hnil r ?_
          split <;> simp [mem_addCaptureReason, mem_addCaptureReasons, hr]
        · simp [hasRemainingEligibleObjectProperty, mem_addCaptureReasons]
      · obtain ⟨hfirst, hjoined⟩ := snapshotProperties_cons false hkey value properties hroom depth ledger.capture
        obtain ⟨hsecond, hsecondJoined⟩ := snapshotProperties_cons true hkey
          (snapshotObjectValue false value depth ledger.capture).value
          (snapshotProperties false properties (copiedKeys + 1) depth []
            (snapshotObjectValue false value depth ledger.capture).context).value hroom depth ledger.again
        simp only [hfirst, retraceProperties, hkey, hroom, Bool.not_true, Bool.false_eq_true, if_false]
        refine (retraces_value value depth ledger).join _ (fun mid hmid => ?_) hjoined hsecondJoined ?_
        · have hproperties := retraces_properties properties (copiedKeys + 1) depth mid
          rwa [hmid.capture, hmid.again] at hproperties
        · rw [hsecond, hfirst]
          simp
    · have hne : Reason.aggregateBudgetExhausted ≠ Reason.objectKeyUnsupported := by decide
      have hnoted := snapshotProperties_noted false properties copiedKeys depth
        (addCaptureReason [] Reason.objectKeyUnsupported) ledger.capture
      simp only [snapshotProperties, retraceProperties, hkey, Bool.not_false, if_true, hnoted.value]
      refine (retraces_properties properties copiedKeys depth ledger).wrap hnoted.context ?_ (fun hnil => ?_) rfl
        (fun _ => Iff.rfl) (by rw [hnoted.value])
      · simp [hnoted.reasons, mem_addCaptureReason, hne]
      · rw [List.eq_nil_iff_forall_not_mem] at hnil ⊢
        exact fun r hr => hnil r ((hnoted.reasons r).mpr (.inr hr))

end

/-! ## Observations -/

theorem readReasons_map (hne : reasons ≠ []) (hlength : reasons.length ≤ maxArrayItems)
    (h : ∀ r ∈ reasons, r.length ≤ 128) : readReasons (reasons.map (Json.str (ν := ν))) = some reasons := by
  have hpos := List.length_pos_iff.mpr hne
  rw [readReasons, List.length_map, if_pos ⟨hpos, hlength⟩]
  clear hne hlength hpos
  induction reasons with
  | nil => rfl
  | cons reason reasons ih =>
    rw [List.map_cons, List.mapM_cons, ih fun r hr => h r (List.mem_cons_of_mem _ hr), readReason,
      if_pos (h reason List.mem_cons_self)]
    rfl

theorem readObjectObservation_toJson (hne : reasons ≠ []) (h : WellNoted reasons) (value : Json ν) :
    readObjectObservation (Observation.envelope Observed.isPartial reasons value).toJson =
      some ⟨Observed.isPartial, reasons, value⟩ := by
  have hreasons := readReasons_map (ν := ν) hne (Nat.le_trans h.length_le (by decide)) h.reason_length
  simp only [Observation.toJson, readObjectObservation, List.length_cons, List.length_nil]
  simp only [List.lookup_cons, show (Observed.reasons == Observed.captureStatus) = false by decide,
    show (Observed.value == Observed.captureStatus) = false by decide,
    show (Observed.value == Observed.reasons) = false by decide, beq_self_eq_true]
  simp [hreasons]

theorem createObjectObservation_value (object : Json ν) (maxOutputBytes : Nat) :
    createObjectObservation object maxOutputBytes .value =
      let snapshot := snapshotObjectValue false object 0 ⟨maxOutputBytes, maxNodes⟩
      if snapshot.complete then .whole snapshot.value else .envelope Observed.isPartial snapshot.reasons snapshot.value := rfl

theorem createObjectObservation_envelope (hne : reasons ≠ []) (h : WellNoted reasons) (value : Json ν)
    (maxOutputBytes : Nat) :
    createObjectObservation (Observation.envelope Observed.isPartial reasons value).toJson maxOutputBytes .snapshot =
      let snapshot := snapshotObjectValue true value 0 ⟨maxOutputBytes, maxNodes⟩
      .envelope Observed.isPartial (addCaptureReasons reasons snapshot.reasons) snapshot.value := by
  simp only [createObjectObservation, if_true, readObjectObservation_toJson hne h, ite_self]

theorem envelope_toJson_inj {status : Text} {reasons' : List Text} {value value' : Json ν} :
    (Observation.envelope status reasons value).toJson = (Observation.envelope status reasons' value').toJson ↔
      reasons = reasons' ∧ value = value' := by
  have hinj : Function.Injective (Json.str (ν := ν)) := fun _ _ h => by injection h
  simp [Observation.toJson, (List.map_injective_iff.mpr hinj).eq_iff]

theorem addCaptureReasons_eq_iff {more : List Text} : addCaptureReasons reasons more = reasons ↔ more ⊆ reasons :=
  ⟨fun h _ hr => h ▸ mem_addCaptureReasons.mpr (.inr hr), addCaptureReasons_of_subset⟩

def Observation.isWhole : Observation ν → Bool
  | .whole _ => true
  | .envelope .. => false

/-- The capture of a captured envelope gives the envelope back, and its strings come from the data. Both captures keep the
order of the properties. -/
def Recaptured (object : Json ν) (maxOutputBytes : Nat) : Prop :=
  let observation := createObjectObservation object maxOutputBytes .value
  ∀ status reasons value, observation = .envelope status reasons value →
    (createObjectObservation observation.toJson maxOutputBytes .snapshot).toJson = observation.toJson ∧ Excerpt value object

theorem Agrees.reasons_subset_iff {α : Type} {again : Context} {after : Ledger} {first second : Snapshot α}
    (h : Agrees { capture, again } after first second) :
    second.reasons ⊆ first.reasons ↔ (!after.againShort || after.captureShort) = true := by
  have hcapture := h.captureShort
  have hagain := h.againShort
  simp only [Bool.false_eq_true, false_or] at hcapture hagain
  rw [Bool.or_eq_true, Bool.not_eq_true', ← Bool.not_eq_true, hcapture, hagain, not_not]
  constructor
  · intro hsub
    cases hsecond : second.reasons with
    | nil => exact .inl rfl
    | cons reason reasons =>
      have hmem : reason ∈ second.reasons := by simp [hsecond]
      exact .inr (h.reasons reason hmem ▸ hsub hmem)
  · rintro (hnil | hmem) r hr
    · simp [hnil] at hr
    · exact h.reasons r hr ▸ hmem

theorem recaptured_iff (object : Json ν) (maxOutputBytes : Nat) :
    Recaptured object maxOutputBytes ↔ paysForMarkers object maxOutputBytes = true := by
  have hwalk := retraces_value object 0 { capture := ⟨maxOutputBytes, maxNodes⟩, again := ⟨maxOutputBytes, maxNodes⟩ }
  have hnoted := wellNoted_snapshotObjectValue false object 0 ⟨maxOutputBytes, maxNodes⟩
  have hexcerpt := excerpt_snapshotObjectValue false object 0 ⟨maxOutputBytes, maxNodes⟩
  simp only [Recaptured, paysForMarkers, createObjectObservation_value]
  generalize snapshotObjectValue false object 0 ⟨maxOutputBytes, maxNodes⟩ = first at hwalk hnoted hexcerpt
  by_cases hcomplete : first.reasons = []
  · -- Nothing was left out, and the second capture has as much to spend.
    simp only [Snapshot.complete, hcomplete, List.isEmpty_nil, if_true, reduceCtorEq, false_implies, implies_true, true_iff]
    cases hafter : retrace object 0 { capture := ⟨maxOutputBytes, maxNodes⟩, again := ⟨maxOutputBytes, maxNodes⟩ } with
    | none =>
      rw [hafter] at hwalk
      exact absurd ⟨rfl, hcomplete⟩ hwalk.2
    | some after =>
      rw [hafter] at hwalk
      have hsecond := (hwalk.free rfl hcomplete).2
      exact hwalk.reasons_subset_iff.mp (by simp [hsecond])
  · have hincomplete : first.complete = false := by simpa [Snapshot.complete] using hcomplete
    simp only [hincomplete, Bool.false_eq_true, if_false, createObjectObservation_envelope hcomplete hnoted, envelope_toJson_inj,
      addCaptureReasons_eq_iff]
    have hsame : (∀ status reasons value,
          Observation.envelope Observed.isPartial first.reasons first.value = .envelope status reasons value →
            ((snapshotObjectValue true first.value 0 ⟨maxOutputBytes, maxNodes⟩).reasons ⊆ first.reasons ∧
              (snapshotObjectValue true first.value 0 ⟨maxOutputBytes, maxNodes⟩).value = first.value) ∧ Excerpt value object) ↔
        (snapshotObjectValue true first.value 0 ⟨maxOutputBytes, maxNodes⟩).reasons ⊆ first.reasons ∧
          (snapshotObjectValue true first.value 0 ⟨maxOutputBytes, maxNodes⟩).value = first.value := by
      refine ⟨fun h => (h _ _ _ rfl).1, fun h status reasons value heq => ⟨h, ?_⟩⟩
      injection heq with _ _ hvalue
      exact hvalue ▸ hexcerpt
    rw [hsame]
    cases hafter : retrace object 0 { capture := ⟨maxOutputBytes, maxNodes⟩, again := ⟨maxOutputBytes, maxNodes⟩ } with
    | none =>
      rw [hafter] at hwalk
      exact ⟨fun h => absurd h.2 hwalk.1, fun h => nomatch h⟩
    | some after =>
      rw [hafter] at hwalk
      exact ⟨fun h => hwalk.reasons_subset_iff.mp h.1, fun h => ⟨hwalk.reasons_subset_iff.mpr h, hwalk.value⟩⟩

/-- One item too many. -/
def wideArray : Json Nat := .arr (List.replicate 101 .null)

/-- The omission marker of nineteen bytes was free the first time. -/
theorem recaptured_items_marker : ¬ Recaptured wideArray 10 := by
  intro h
  have hcut : (createObjectObservation wideArray 10 .value).isWhole = false := by decide +kernel
  have hreasons : (readObjectObservation (createObjectObservation
        (createObjectObservation wideArray 10 .value).toJson 10 .snapshot).toJson).map (·.reasons) ≠
      (readObjectObservation (createObjectObservation wideArray 10 .value).toJson).map (·.reasons) := by decide +kernel
  cases hobservation : createObjectObservation wideArray 10 .value with
  | whole value =>
    rw [hobservation] at hcut
    nomatch hcut
  | envelope status reasons value =>
    have hsame := (h status reasons value hobservation).1
    rw [hsame] at hreasons
    exact hreasons rfl

end Veryfront.Agent.AgUi.MessageFinish
