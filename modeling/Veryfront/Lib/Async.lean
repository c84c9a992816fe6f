import Veryfront.Lib.Runs
import Mathlib.Logic.Function.Basic

/-!
# Asynchronous functions

An asynchronous function runs to its next await without a break, and anything may happen before
the awaited call answers. Here it is the tree of the calls it awaits, and a world interleaves any
number of such functions over one shared state, one call at a time. What one function does is
proved alone, against what the others may do in between (its rely) and with what it promises them
(its guarantee); `World.safe` puts the functions together.

`ι` is the type of calls, `ρ` what each call answers, `ε` what is thrown, `τ` the names of the
running functions and `σ` the shared state.
-/

namespace Veryfront.Lib

variable {ι : Type} {ρ : ι → Type} {ε α β σ τ : Type}

inductive Async (ι : Type) (ρ : ι → Type) (ε α : Type)
  | settled (result : Except ε α)
  | await (call : ι) (next : Except ε (ρ call) → Async ι ρ ε α)

namespace Async

/-- A throw skips the rest. -/
def bind : Async ι ρ ε α → (α → Async ι ρ ε β) → Async ι ρ ε β
  | .settled (.ok a), f => f a
  | .settled (.error e), _ => .settled (.error e)
  | .await c next, f => .await c fun r => (next r).bind f

instance : Monad (Async ι ρ ε) where
  pure a := .settled (.ok a)
  bind := bind

def call (c : ι) : Async ι ρ ε (ρ c) := .await c .settled

def throw (e : ε) : Async ι ρ ε α := .settled (.error e)

/-- `try` without its handler: the caller looks at what was thrown. -/
def attempt : Async ι ρ ε α → Async ι ρ ε (Except ε α)
  | .settled r => .settled (.ok r)
  | .await c next => .await c fun r => (next r).attempt

@[simp] theorem pure_eq (a : α) : (pure a : Async ι ρ ε α) = .settled (.ok a) := rfl

@[simp] theorem settled_ok_bind (a : α) (f : α → Async ι ρ ε β) : (settled (.ok a) >>= f) = f a := rfl

@[simp] theorem settled_error_bind (e : ε) (f : α → Async ι ρ ε β) :
    ((settled (.error e) : Async ι ρ ε α) >>= f) = .settled (.error e) := rfl

@[simp] theorem throw_eq (e : ε) : (throw e : Async ι ρ ε α) = .settled (.error e) := rfl

@[simp] theorem attempt_settled (r : Except ε α) : (settled r : Async ι ρ ε α).attempt = .settled (.ok r) := rfl

/-! ## One function among others -/

/-- What a running function may assume and owes. `effect c s r s'`: in `s` the call `c` may answer
`r` and leave `s'`. -/
structure Contract (ι : Type) (ρ : ι → Type) (ε σ : Type) where
  rely : σ → σ → Prop
  effect : (c : ι) → σ → Except ε (ρ c) → σ → Prop
  guarantee : σ → σ → Prop
  rely_refl : ∀ s, rely s s
  rely_trans : ∀ {s t u}, rely s t → rely t u → rely s u

variable (C : Contract ι ρ ε σ)

/-- From `s` on, every call of the function keeps its guarantee and it settles in `Q`, whatever
the others do. -/
def Safe (Q : Except ε α → σ → Prop) : Async ι ρ ε α → σ → Prop
  | .settled r, s => ∀ s', C.rely s s' → Q r s'
  | .await c next, s => ∀ s', C.rely s s' → ∀ r s'', C.effect c s' r s'' →
      C.guarantee s' s'' ∧ Safe Q (next r) s''

variable {C}

variable {Q : Except ε α → σ → Prop} {p : Async ι ρ ε α}

theorem Safe.relied {s s' : σ} (h : Safe C Q p s)
    (hr : C.rely s s') : Safe C Q p s' := by
  cases p with
  | settled r => exact fun t ht => h t (C.rely_trans hr ht)
  | await c next => exact fun t ht => h t (C.rely_trans hr ht)

theorem Safe.mono {Q' : Except ε α → σ → Prop} (hQ : ∀ r s, Q r s → Q' r s) :
    ∀ {s : σ}, Safe C Q p s → Safe C Q' p s := by
  induction p with
  | settled r => exact fun h s' hs => hQ r s' (h s' hs)
  | await c next ih =>
    intro s h s' hs r s'' he
    exact ⟨(h s' hs r s'' he).1, ih r (h s' hs r s'' he).2⟩

/-- What a function settled with carries on into the rest of its caller. -/
def Then (C : Contract ι ρ ε σ) (Q : Except ε β → σ → Prop) (f : α → Async ι ρ ε β) : Except ε α → σ → Prop
  | .ok a, s => Safe C Q (f a) s
  | .error e, s => Q (.error e) s

theorem Safe.bind {Q : Except ε β → σ → Prop} {f : α → Async ι ρ ε β} :
    ∀ {s : σ}, Safe C (Then C Q f) p s → Safe C Q (p >>= f) s := by
  induction p with
  | settled r =>
    intro s h
    cases r with
    | ok a => exact h s (C.rely_refl s)
    | error e => exact h
  | await c next ih =>
    intro s h s' hs r s'' he
    exact ⟨(h s' hs r s'' he).1, ih r (h s' hs r s'' he).2⟩

theorem Safe.attempt {Q : Except ε (Except ε α) → σ → Prop} :
    ∀ {s : σ}, Safe C (fun r => Q (.ok r)) p s → Safe C Q p.attempt s := by
  induction p with
  | settled r => exact id
  | await c next ih =>
    intro s h s' hs r s'' he
    exact ⟨(h s' hs r s'' he).1, ih r (h s' hs r s'' he).2⟩

/-- An assertion that the others cannot break. -/
def Stable (C : Contract ι ρ ε σ) (P : σ → Prop) : Prop := ∀ s s', P s → C.rely s s' → P s'

theorem Safe.await {c : ι} {next : Except ε (ρ c) → Async ι ρ ε α} {s : σ}
    (P : σ → Prop) (hP : Stable C P) (h : P s)
    (hstep : ∀ s r s', P s → C.effect c s r s' → C.guarantee s s' ∧ Safe C Q (next r) s') :
    Safe C Q (.await c next) s :=
  fun s' hs r s'' he => hstep s' r s'' (hP s s' h hs) he

theorem Safe.settled {r : Except ε α} {s : σ} (P : σ → Prop) (hP : Stable C P)
    (h : P s) (hQ : ∀ s, P s → Q r s) : Safe C Q (.settled r) s :=
  fun s' hs => hQ s' (hP s s' h hs)

end Async

/-! ## All functions together -/

structure World (ι : Type) (ρ : ι → Type) (ε α σ τ : Type) where
  shared : σ
  /-- The functions that were started, by name. -/
  running : τ → Option (Async ι ρ ε α)

/-- The world in which `t` runs `p` and the shared state is `s`. -/
def World.become [DecidableEq τ] (w : World ι ρ ε α σ τ) (t : τ) (p : Async ι ρ ε α) (s : σ) :
    World ι ρ ε α σ τ := ⟨s, Function.update w.running t (some p)⟩

section
variable [DecidableEq τ] (w : World ι ρ ε α σ τ) (t : τ) (p : Async ι ρ ε α) (s : σ)

@[simp] theorem World.become_shared : (w.become t p s).shared = s := rfl

@[simp] theorem World.become_self : (w.become t p s).running t = some p :=
  Function.update_self ..

theorem World.become_other {u : τ} (h : u ≠ t) : (w.become t p s).running u = w.running u :=
  Function.update_of_ne h ..

end

/-- Who took a step. -/
inductive Actor (τ : Type)
  | starts (t : τ)
  | awaits (t : τ)
  | environment
deriving DecidableEq

/-- What can happen in a world. -/
structure System (ι : Type) (ρ : ι → Type) (ε α σ τ : Type) where
  /-- The functions that may run under a name. -/
  starts : τ → Async ι ρ ε α → Prop
  effect : τ → (c : ι) → σ → Except ε (ρ c) → σ → Prop
  environment : σ → σ → Prop

inductive System.Step [DecidableEq τ] (S : System ι ρ ε α σ τ) :
    World ι ρ ε α σ τ → Actor τ → World ι ρ ε α σ τ → Prop
  | starts {w t p} : w.running t = none → S.starts t p →
      Step S w (.starts t) (w.become t p w.shared)
  | awaits {w t c next r s'} : w.running t = some (.await c next) → S.effect t c w.shared r s' →
      Step S w (.awaits t) (w.become t (next r) s')
  | environment {w s'} : S.environment w.shared s' → Step S w .environment ⟨s', w.running⟩

/-! ## Playing a world

A scripted step computes the world after it, so that a run can be evaluated. -/

inductive Move (ι : Type) (ρ : ι → Type) (ε α σ τ : Type)
  | start (t : τ) (p : Async ι ρ ε α)
  | serve (t : τ) (answer : (c : ι) → σ → Except ε (ρ c) × σ)
  | change (f : σ → σ)

namespace Move

def actor : Move ι ρ ε α σ τ → Actor τ
  | start t _ => .starts t
  | serve t _ => .awaits t
  | change _ => .environment

/-- The system can take this step in whatever state it is taken. -/
def Admitted (S : System ι ρ ε α σ τ) : Move ι ρ ε α σ τ → Prop
  | start t p => S.starts t p
  | serve t answer => ∀ c s, S.effect t c s (answer c s).1 (answer c s).2
  | change f => ∀ s, S.environment s (f s)

variable [DecidableEq τ]

def play (w : World ι ρ ε α σ τ) : Move ι ρ ε α σ τ → Option (World ι ρ ε α σ τ)
  | start t p =>
    match w.running t with
    | none => some (w.become t p w.shared)
    | some _ => none
  | serve t answer =>
    match w.running t with
    | some (.await c next) => some (w.become t (next (answer c w.shared).1) (answer c w.shared).2)
    | _ => none
  | change f => some ⟨f w.shared, w.running⟩

def playAll (w : World ι ρ ε α σ τ) : List (Move ι ρ ε α σ τ) → Option (World ι ρ ε α σ τ)
  | [] => some w
  | m :: ms => (m.play w).bind fun w' => playAll w' ms

variable {S : System ι ρ ε α σ τ} {w w' : World ι ρ ε α σ τ}

theorem step_of_play {m : Move ι ρ ε α σ τ} (hm : m.Admitted S) (h : m.play w = some w') :
    S.Step w m.actor w' := by
  cases m with
  | start t p =>
    simp only [play] at h
    split at h
    · rename_i hnone
      cases h
      exact .starts hnone hm
    · cases h
  | serve t answer =>
    simp only [play] at h
    split at h
    · rename_i c next ht
      cases h
      exact .awaits ht (hm c w.shared)
    · cases h
  | change f =>
    cases h
    exact .environment (hm w.shared)

theorem run_of_playAll {ms : List (Move ι ρ ε α σ τ)} (hms : ∀ m ∈ ms, m.Admitted S) :
    ∀ {w : World ι ρ ε α σ τ}, playAll w ms = some w' → Run S.Step w (ms.map actor) w' := by
  induction ms with
  | nil =>
    intro w h
    cases h
    exact .nil
  | cons m ms ih =>
    intro w h
    obtain ⟨w₁, h₁, h₂⟩ := Option.bind_eq_some_iff.mp h
    exact .cons (step_of_play (hms m List.mem_cons_self) h₁) (ih (fun m' hm => hms m' (List.mem_cons_of_mem _ hm)) h₂)

end Move

structure System.Contracts (S : System ι ρ ε α σ τ) where
  rely : τ → σ → σ → Prop
  guarantee : τ → σ → σ → Prop
  result : τ → Except ε α → σ → Prop
  /-- What the shared state keeps on every step. -/
  invariant : σ → Prop
  /-- What is so while nothing was started under the name. -/
  idle : τ → σ → Prop
  rely_refl : ∀ t s, rely t s s
  rely_trans : ∀ t {s s' s''}, rely t s s' → rely t s' s'' → rely t s s''
  rely_guarantee : ∀ {t u s s'}, t ≠ u → invariant s → guarantee u s s' → rely t s s'
  rely_environment : ∀ {t s s'}, invariant s → S.environment s s' → rely t s s'
  invariant_guarantee : ∀ {t s s'}, invariant s → guarantee t s s' → invariant s'
  invariant_environment : ∀ {s s'}, invariant s → S.environment s s' → invariant s'
  idle_rely : ∀ {t s s'}, idle t s → rely t s s' → idle t s'

namespace System.Contracts

variable {S : System ι ρ ε α σ τ} (K : S.Contracts)

def contract (t : τ) : Async.Contract ι ρ ε σ where
  rely s s' := K.rely t s s' ∧ (K.invariant s → K.invariant s')
  effect c s r s' := K.invariant s ∧ S.effect t c s r s'
  guarantee := K.guarantee t
  rely_refl s := ⟨K.rely_refl t s, id⟩
  rely_trans h h' := ⟨K.rely_trans t h.1 h'.1, h'.2 ∘ h.2⟩

/-- The function running under a name meets its contract from here on. -/
def Meets (t : τ) (p : Async ι ρ ε α) (s : σ) : Prop := Async.Safe (K.contract t) (K.result t) p s

structure Holds (w : World ι ρ ε α σ τ) : Prop where
  invariant : K.invariant w.shared
  meets : ∀ t p, w.running t = some p → K.Meets t p w.shared
  idle : ∀ t, w.running t = none → K.idle t w.shared

variable {w : World ι ρ ε α σ τ}

theorem result_of_settled (hw : K.Holds w) {t : τ} {r : Except ε α}
    (ht : w.running t = some (.settled r)) : K.result t r w.shared :=
  hw.meets t _ ht w.shared ⟨K.rely_refl t _, id⟩

variable [DecidableEq τ]

/-- The others, and those not started yet, keep what they have over one function's call. -/
theorem holds_awaits {t : τ} {c : ι} {next : Except ε (ρ c) → Async ι ρ ε α}
    {r : Except ε (ρ c)} {s' : σ} (hw : K.Holds w) (ht : w.running t = some (.await c next))
    (he : S.effect t c w.shared r s') :
    K.guarantee t w.shared s' ∧ K.Holds (w.become t (next r) s') := by
  obtain ⟨hg, hnext⟩ := hw.meets t _ ht w.shared ⟨K.rely_refl t _, id⟩ r s' ⟨hw.invariant, he⟩
  have hinv : K.invariant s' := K.invariant_guarantee hw.invariant hg
  refine ⟨hg, hinv, ?_, ?_⟩
  · intro u p hu
    by_cases h : u = t
    · subst h
      rw [World.become_self, Option.some.injEq] at hu
      exact hu ▸ hnext
    · rw [World.become_other _ _ _ _ h] at hu
      exact (hw.meets u p hu).relied ⟨K.rely_guarantee h hw.invariant hg, fun _ => hinv⟩
  · intro u hu
    by_cases h : u = t
    · subst h
      simp at hu
    · rw [World.become_other _ _ _ _ h] at hu
      exact K.idle_rely (hw.idle u hu) (K.rely_guarantee h hw.invariant hg)

theorem holds_step (hstart : ∀ t p s, S.starts t p → K.invariant s → K.idle t s → K.Meets t p s)
    {w' : World ι ρ ε α σ τ} {a : Actor τ} (hw : K.Holds w) (h : S.Step w a w') : K.Holds w' := by
  cases h with
  | @starts t p hnone hp =>
    refine ⟨hw.invariant, ?_, ?_⟩
    · intro u q hu
      by_cases h : u = t
      · subst h
        rw [World.become_self, Option.some.injEq] at hu
        exact hu ▸ hstart u p w.shared hp hw.invariant (hw.idle u hnone)
      · rw [World.become_other _ _ _ _ h] at hu
        exact hw.meets u q hu
    · intro u hu
      by_cases h : u = t
      · subst h
        simp at hu
      · rw [World.become_other _ _ _ _ h] at hu
        exact hw.idle u hu
  | awaits ht he => exact (K.holds_awaits hw ht he).2
  | environment he =>
    have hinv := K.invariant_environment hw.invariant he
    exact ⟨hinv, fun u p hu => (hw.meets u p hu).relied ⟨K.rely_environment hw.invariant he, fun _ => hinv⟩,
      fun u hu => K.idle_rely (hw.idle u hu) (K.rely_environment hw.invariant he)⟩

theorem guarantee_of_awaits {w' : World ι ρ ε α σ τ} {t : τ} (hw : K.Holds w) (h : S.Step w (.awaits t) w') :
    K.guarantee t w.shared w'.shared := by
  cases h with
  | awaits ht he => exact (K.holds_awaits hw ht he).1

theorem holds_run (hstart : ∀ t p s, S.starts t p → K.invariant s → K.idle t s → K.Meets t p s)
    {w₀ : World ι ρ ε α σ τ} {steps : List (Actor τ)} (h0 : K.Holds w₀) (h : Run S.Step w₀ steps w) :
    K.Holds w :=
  h.invariant K.Holds h0 fun _ _ _ hw hs => K.holds_step hstart hw hs

end System.Contracts

end Veryfront.Lib
