import Mathlib.Data.List.Basic

/-!
# Codes that end themselves

A code is self-delimiting when it can be told from whatever follows it. Pairs of such codes are so again, and lists are
with their length in front. A buffer that is filled at a cursor holds what was put into it, one thing after the other.
-/

namespace Veryfront.Lib

variable {α β γ : Type*}

/-! ## Codes -/

/-- From the code of a value of `P`, and what follows it, both can be told. -/
def SelfDelimiting (P : α → Prop) (encode : α → List γ) : Prop :=
  ∀ ⦃a b : α⦄ ⦃s t : List γ⦄, P a → P b → encode a ++ s = encode b ++ t → a = b ∧ s = t

variable {P : α → Prop} {encode : α → List γ} {Q : β → Prop} {encode' : β → List γ}

theorem SelfDelimiting.of_width {width : Nat} (hlength : ∀ a, (encode a).length = width)
    (hinj : ∀ ⦃a b⦄, P a → P b → encode a = encode b → a = b) : SelfDelimiting P encode := by
  intro a b s t ha hb h
  obtain ⟨hcode, hrest⟩ := List.append_inj h (by rw [hlength, hlength])
  exact ⟨hinj ha hb hcode, hrest⟩

theorem SelfDelimiting.pair (h : SelfDelimiting P encode) (h' : SelfDelimiting Q encode') :
    SelfDelimiting (fun p : α × β => P p.1 ∧ Q p.2) fun p => encode p.1 ++ encode' p.2 := by
  intro a b s t ha hb heq
  rw [List.append_assoc, List.append_assoc] at heq
  obtain ⟨hfst, heq⟩ := h ha.1 hb.1 heq
  obtain ⟨hsnd, heq⟩ := h' ha.2 hb.2 heq
  exact ⟨Prod.ext hfst hsnd, heq⟩

theorem SelfDelimiting.flatMap (h : SelfDelimiting P encode) {as bs : List α} {s t : List γ} (hlength : as.length = bs.length)
    (ha : ∀ a ∈ as, P a) (hb : ∀ b ∈ bs, P b) (heq : as.flatMap encode ++ s = bs.flatMap encode ++ t) : as = bs ∧ s = t := by
  induction as generalizing bs with
  | nil =>
    obtain rfl := List.length_eq_zero_iff.mp hlength.symm
    exact ⟨rfl, heq⟩
  | cons a as ih =>
    match bs, hlength with
    | b :: bs, hlength =>
      rw [List.flatMap_cons, List.flatMap_cons, List.append_assoc, List.append_assoc] at heq
      obtain ⟨rfl, hrest⟩ := h (ha a List.mem_cons_self) (hb b List.mem_cons_self) heq
      obtain ⟨rfl, hlast⟩ := ih (Nat.succ.inj hlength) (fun x hx => ha x (List.mem_cons_of_mem _ hx))
        (fun x hx => hb x (List.mem_cons_of_mem _ hx)) hrest
      exact ⟨rfl, hlast⟩

theorem SelfDelimiting.counted {R : Nat → Prop} {number : Nat → List γ} (hnumber : SelfDelimiting R number)
    (h : SelfDelimiting P encode) :
    SelfDelimiting (fun as : List α => R as.length ∧ ∀ a ∈ as, P a) fun as => number as.length ++ as.flatMap encode := by
  intro as bs s t ha hb heq
  rw [List.append_assoc, List.append_assoc] at heq
  obtain ⟨hlength, heq⟩ := hnumber ha.1 hb.1 heq
  exact h.flatMap hlength ha.2 hb.2 heq

theorem SelfDelimiting.injective (h : SelfDelimiting P encode) {a b : α} (ha : P a) (hb : P b) (heq : encode a = encode b) :
    a = b :=
  (h ha hb (congrArg (· ++ []) heq)).1

/-! ## Buffers -/

structure Buffer (γ : Type*) where
  cells : List γ
  offset : Nat

/-- Nothing is written behind the last cell. -/
def Buffer.put (buffer : Buffer γ) (cell : γ) : Buffer γ := ⟨buffer.cells.set buffer.offset cell, buffer.offset + 1⟩

/-- What has been put is there up to the cursor, and behind it is the room that is left. -/
def Buffer.Holds (buffer : Buffer γ) (written : List γ) (room : Nat) : Prop :=
  ∃ rest, buffer.cells = written ++ rest ∧ rest.length = room ∧ buffer.offset = written.length

variable {buffer : Buffer γ} {written : List γ} {room : Nat}

theorem Buffer.holds_start (cells : List γ) : Buffer.Holds ⟨cells, 0⟩ [] cells.length := ⟨cells, rfl, rfl, rfl⟩

theorem Buffer.Holds.put (h : buffer.Holds written (room + 1)) (cell : γ) : (buffer.put cell).Holds (written ++ [cell]) room := by
  obtain ⟨rest, hcells, hroom, hoffset⟩ := h
  match rest, hroom with
  | old :: rest, hroom =>
    refine ⟨rest, ?_, Nat.succ.inj hroom, ?_⟩
    · rw [Buffer.put, hcells, hoffset, List.set_append_right _ _ (Nat.le_refl _), Nat.sub_self, List.set_cons_zero,
        List.append_assoc, List.singleton_append]
    · rw [Buffer.put, hoffset, List.length_append, List.length_singleton]

theorem Buffer.Holds.foldl {write : Buffer γ → α → Buffer γ}
    (hwrite : ∀ {buffer written room} a, Buffer.Holds buffer written (room + (encode a).length) →
      (write buffer a).Holds (written ++ encode a) room) {as : List α}
    (h : buffer.Holds written (room + (as.flatMap encode).length)) :
    (as.foldl write buffer).Holds (written ++ as.flatMap encode) room := by
  induction as generalizing buffer written with
  | nil => simpa using h
  | cons a as ih =>
    rw [List.flatMap_cons, List.length_append, Nat.add_comm (encode a).length, ← Nat.add_assoc] at h
    have hrest := ih (hwrite a h)
    rwa [List.append_assoc] at hrest

theorem Buffer.Holds.full (h : buffer.Holds written 0) : buffer.cells = written ∧ buffer.offset = written.length := by
  obtain ⟨rest, hcells, hroom, hoffset⟩ := h
  obtain rfl := List.length_eq_zero_iff.mp hroom
  rw [List.append_nil] at hcells
  exact ⟨hcells, hoffset⟩

end Veryfront.Lib
