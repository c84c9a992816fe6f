import Mathlib.Data.List.Induction

/-!
# Steps that emit, watched by a monitor

An emitter changes a state and emits events. A monitor reads the events one after the other and may refuse one.
An emitter meets a pair of relations between the state and the monitor when, from the first one, all that it emits
is accepted, and the second one holds afterwards. It projects to a smaller emitter when this one does the same on the
part of the state and of the events that is looked at.
-/

namespace Veryfront.Lib

abbrev Emitter (σ ε : Type*) := σ → σ × List ε

namespace Emitter

variable {σ ε ο : Type*}

def andThen (first second : Emitter σ ε) : Emitter σ ε := fun state =>
  let (state, before) := first state
  let (state, after) := second state
  (state, before ++ after)

def emit (event : ε) : Emitter σ ε := fun state => (state, [event])

def update (change : σ → σ) : Emitter σ ε := fun state => (change state, [])

/-! ## What an emitter meets -/

def Meets (advance : ο → ε → Option ο) (P : σ → ο → Prop) (f : Emitter σ ε) (Q : σ → ο → Prop) : Prop :=
  ∀ s o, P s o → ∃ o', (f s).2.foldlM advance o = some o' ∧ Q (f s).1 o'

variable {advance : ο → ε → Option ο} {P Q R : σ → ο → Prop}

theorem foldlM_append_eq_some {o o' o'' : ο} {es fs : List ε} (h : es.foldlM advance o = some o')
    (h' : fs.foldlM advance o' = some o'') : (es ++ fs).foldlM advance o = some o'' := by
  rw [List.foldlM_append, h]
  exact h'

theorem Meets.andThen {f g : Emitter σ ε} (hf : Meets advance P f Q) (hg : Meets advance Q g R) :
    Meets advance P (f.andThen g) R := by
  intro s o h
  obtain ⟨o', hfirst, hQ⟩ := hf s o h
  obtain ⟨o'', hsecond, hR⟩ := hg _ o' hQ
  exact ⟨o'', foldlM_append_eq_some hfirst hsecond, hR⟩

theorem Meets.mono {P' Q' : σ → ο → Prop} {f : Emitter σ ε} (h : Meets advance P f Q) (hP : ∀ s o, P' s o → P s o)
    (hQ : ∀ s o, Q s o → Q' s o) : Meets advance P' f Q' := by
  intro s o hs
  obtain ⟨o', hev, hq⟩ := h s o (hP s o hs)
  exact ⟨o', hev, hQ _ _ hq⟩

theorem meets_emit {event : ε} (h : ∀ s o, P s o → ∃ o', advance o event = some o' ∧ Q s o') :
    Meets advance P (emit event) Q := by
  intro s o hs
  obtain ⟨o', hev, hq⟩ := h s o hs
  exact ⟨o', by simp [emit, hev], hq⟩

/-! ## One input after the other -/

section Inputs

variable {α : Type*} (step : σ → α → Option (σ × List ε))

/-- `none` where a step fails. -/
def emitAll (state : σ) : List α → Option (σ × List ε)
  | [] => some (state, [])
  | input :: inputs =>
    (step state input).bind fun mid => (emitAll mid.1 inputs).map fun last => (last.1, mid.2 ++ last.2)

variable {step}

variable {inputs : List α} {emitted : List ε}

theorem emitAll_cons {state s' : σ} {input : α}
    (h : emitAll step state (input :: inputs) = some (s', emitted)) :
    ∃ mid first rest, step state input = some (mid, first) ∧ emitAll step mid inputs = some (s', rest) ∧
      emitted = first ++ rest := by
  obtain ⟨⟨mid, first⟩, hstep, h⟩ := Option.bind_eq_some_iff.mp h
  obtain ⟨⟨last, rest⟩, hrest, heq⟩ := Option.map_eq_some_iff.mp h
  obtain ⟨rfl, rfl⟩ := Prod.mk.inj heq
  exact ⟨mid, first, rest, hstep, hrest, rfl⟩

theorem emitAll_append (state : σ) (before after : List α) :
    emitAll step state (before ++ after) = (emitAll step state before).bind fun mid =>
      (emitAll step mid.1 after).map fun last => (last.1, mid.2 ++ last.2) := by
  induction before generalizing state with
  | nil => simp [emitAll]
  | cons input before ih =>
    rw [List.cons_append, emitAll, emitAll]
    cases step state input with
    | none => rfl
    | some first =>
      simp only [Option.bind_some, ih]
      cases emitAll step first.1 before with
      | none => rfl
      | some mid => simp [List.append_assoc, Function.comp_def]

theorem emitAll_snoc {state s' : σ} {input : α}
    (h : emitAll step state (inputs ++ [input]) = some (s', emitted)) :
    ∃ s before last, emitAll step state inputs = some (s, before) ∧ step s input = some (s', last) ∧
      emitted = before ++ last := by
  rw [emitAll_append] at h
  obtain ⟨⟨s, before⟩, hbefore, h⟩ := Option.bind_eq_some_iff.mp h
  obtain ⟨⟨s'', last⟩, hlast, heq⟩ := Option.map_eq_some_iff.mp h
  obtain ⟨⟨s₁, last₁⟩, hstep, hlast⟩ := Option.bind_eq_some_iff.mp hlast
  simp only [emitAll, Option.map_some, Option.some.injEq, Prod.mk.injEq, List.append_nil] at hlast heq
  obtain ⟨rfl, rfl⟩ := hlast
  obtain ⟨rfl, rfl⟩ := heq
  exact ⟨s, before, last₁, hbefore, hstep, rfl⟩

theorem emitAll_invariant (P : List α → σ → List ε → Prop) {start : σ} (h0 : P [] start [])
    (hstep : ∀ inputs s emitted input s' last, P inputs s emitted → step s input = some (s', last) →
      P (inputs ++ [input]) s' (emitted ++ last)) {s : σ} (h : emitAll step start inputs = some (s, emitted)) :
    P inputs s emitted := by
  induction inputs using List.reverseRecOn generalizing s emitted with
  | nil =>
    obtain ⟨rfl, rfl⟩ := Prod.mk.inj (Option.some.inj h)
    exact h0
  | append_singleton inputs input ih =>
    obtain ⟨t, before, last, hbefore, hlast, rfl⟩ := emitAll_snoc h
    exact hstep inputs t before input s last (ih hbefore) hlast

theorem emitAll_meets (P : List α → σ → ο → Prop) {start : σ} {o₀ : ο} (h0 : P [] start o₀)
    (hstep : ∀ before input after, inputs = before ++ input :: after → ∀ s emitted s' last o,
      emitAll step start before = some (s, emitted) → step s input = some (s', last) → P before s o →
        ∃ o', last.foldlM advance o = some o' ∧ P (before ++ [input]) s' o')
    {s : σ} (h : emitAll step start inputs = some (s, emitted)) :
    ∃ o, emitted.foldlM advance o₀ = some o ∧ P inputs s o := by
  induction inputs using List.reverseRecOn generalizing s emitted with
  | nil =>
    obtain ⟨rfl, rfl⟩ := Prod.mk.inj (Option.some.inj h)
    exact ⟨o₀, rfl, h0⟩
  | append_singleton inputs input ih =>
    obtain ⟨t, before, last, hbefore, hlast, rfl⟩ := emitAll_snoc h
    obtain ⟨o, ho, hP⟩ := ih (fun pre a post heq => hstep pre a (post ++ [input]) (by rw [heq]; simp)) hbefore
    obtain ⟨o', ho', hP'⟩ := hstep inputs input [] rfl t before s last o hbefore hlast hP
    exact ⟨o', foldlM_append_eq_some ho ho', hP'⟩

/-- Each step is one of the projected machine, on the inputs that are `mine`, or is not seen there. -/
theorem emitAll_project {τ φ : Type*} {step' : τ → α → Option (τ × List φ)} {proj : σ → τ} {view : ε → Option φ}
    {mine : α → Bool}
    (hmine : ∀ s a s' es, step s a = some (s', es) → mine a = true →
      step' (proj s) a = some (proj s', es.filterMap view))
    (hother : ∀ s a s' es, step s a = some (s', es) → mine a = false → proj s' = proj s ∧ es.filterMap view = [])
    {s s' : σ} (h : emitAll step s inputs = some (s', emitted)) :
    emitAll step' (proj s) (inputs.filter mine) = some (proj s', emitted.filterMap view) := by
  induction inputs generalizing s emitted with
  | nil =>
    obtain ⟨rfl, rfl⟩ := Prod.mk.inj (Option.some.inj h)
    rfl
  | cons input inputs ih =>
    obtain ⟨mid, first, rest, hstep, hrest, rfl⟩ := emitAll_cons h
    rw [List.filterMap_append]
    cases hinput : mine input with
    | true => simp [hinput, emitAll, hmine _ _ _ _ hstep hinput, ih hrest]
    | false =>
      obtain ⟨hsame, hnone⟩ := hother _ _ _ _ hstep hinput
      simp [hinput, hnone, ← hsame, ih hrest]

end Inputs

/-! ## What is seen of an emitter -/

section Projection

variable {τ φ : Type*} (proj : σ → τ) (view : ε → Option φ)

/-- Nothing happens. -/
def idle : Emitter τ φ := fun state => (state, [])

/-- Through the projection and the view, `f` is `g`. -/
def Projects (f : Emitter σ ε) (g : Emitter τ φ) : Prop :=
  ∀ s, proj (f s).1 = (g (proj s)).1 ∧ (f s).2.filterMap view = (g (proj s)).2

variable {proj view}

theorem Projects.andThen {f f' : Emitter σ ε} {g g' : Emitter τ φ} (h : Projects proj view f g)
    (h' : Projects proj view f' g') : Projects proj view (f.andThen f') (g.andThen g') := by
  intro s
  obtain ⟨hstate, hevents⟩ := h s
  obtain ⟨hstate', hevents'⟩ := h' (f s).1
  rw [hstate] at hstate' hevents'
  refine ⟨hstate', ?_⟩
  simp only [Emitter.andThen, List.filterMap_append, hevents, hevents']

theorem Projects.after {f f' : Emitter σ ε} {g : Emitter τ φ} (h : Projects proj view f idle)
    (h' : Projects proj view f' g) : Projects proj view (f.andThen f') g :=
  Projects.andThen h h'

theorem projects_update {change : σ → σ} {change' : τ → τ} (h : ∀ s, proj (change s) = change' (proj s)) :
    Projects proj view (update change) (update change') :=
  fun s => ⟨h s, rfl⟩

theorem projects_emit {event : ε} {frame : φ} (h : view event = some frame) :
    Projects proj view (emit event) (emit frame) :=
  fun _ => ⟨rfl, by simp [emit, h]⟩

theorem projects_ignored {event : ε} (h : view event = none) : Projects proj view (emit event) idle :=
  fun _ => ⟨rfl, by simp [emit, idle, h]⟩

end Projection

end Emitter

end Veryfront.Lib
