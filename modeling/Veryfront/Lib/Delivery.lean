import Mathlib.Data.List.Basic

/-!
# Data that arrive in pieces

A reader is given data in pieces of any size. What it reads, and how much of the data, must not depend on the pieces.
-/

namespace Veryfront.Lib.Delivery

variable {α β γ ε : Type}

abbrev Reader (α ε : Type) := StateT (List (List α)) (Except ε)

/-- Waits for so many of the data. -/
def readUpTo (closed : ε) : (length : Nat) → Reader α ε (List α)
  | 0, pieces => .ok ([], pieces)
  | _ + 1, [] => .error closed
  | length + 1, piece :: pieces =>
    if length + 1 < piece.length then .ok (piece.take (length + 1), piece.drop (length + 1) :: pieces)
    else (readUpTo closed (length + 1 - piece.length) pieces).map fun (data, pieces) => (piece ++ data, pieces)

/-- However the data and what follows them arrive, the data are what is taken. -/
def Consumes (reader : Reader α ε β) (data : List α) (result : β) : Prop :=
  ∀ pieces rest, pieces.flatten = data ++ rest → ∃ pieces', reader pieces = .ok (result, pieces') ∧ pieces'.flatten = rest

theorem Consumes.pure (result : β) : Consumes (Pure.pure result : Reader α ε β) [] result :=
  fun pieces _ h => ⟨pieces, rfl, h⟩

theorem Consumes.bind {reader : Reader α ε β} {next : β → Reader α ε γ} {data data' : List α} {result : β} {result' : γ}
    (h : Consumes reader data result) (h' : Consumes (next result) data' result') :
    Consumes (reader >>= next) (data ++ data') result' := by
  intro pieces rest heq
  rw [List.append_assoc] at heq
  obtain ⟨middle, hread, hmiddle⟩ := h pieces _ heq
  obtain ⟨pieces', hread', hpieces'⟩ := h' middle rest hmiddle
  refine ⟨pieces', ?_, hpieces'⟩
  change (reader pieces).bind (fun step => next step.1 step.2) = _
  rw [hread]
  exact hread'

theorem consumes_readUpTo (closed : ε) (data : List α) : Consumes (readUpTo closed data.length) data data := by
  intro pieces
  induction pieces generalizing data with
  | nil =>
    intro rest h
    obtain ⟨rfl, rfl⟩ := List.append_eq_nil_iff.mp h.symm
    exact ⟨[], by rw [List.length_nil, readUpTo], rfl⟩
  | cons piece pieces ih =>
    intro rest h
    cases hlength : data.length with
    | zero =>
      obtain rfl := List.length_eq_zero_iff.mp hlength
      exact ⟨piece :: pieces, by rw [readUpTo], h⟩
    | succ length =>
      rw [List.flatten_cons] at h
      rw [readUpTo]
      split
      · rename_i hlong
        have htake := congrArg (List.take (length + 1)) h
        have hdrop := congrArg (List.drop (length + 1)) h
        rw [List.take_append_of_le_length (Nat.le_of_lt hlong), ← hlength, List.take_left] at htake
        rw [List.drop_append_of_le_length (Nat.le_of_lt hlong), ← hlength, List.drop_left] at hdrop
        exact ⟨piece.drop data.length :: pieces, by rw [← hlength, htake], hdrop⟩
      · rename_i hshort
        -- the whole piece is at the front of the data
        obtain ⟨left, rfl⟩ : piece <+: data :=
          List.prefix_of_prefix_length_le (List.prefix_append piece _) (h ▸ List.prefix_append data rest) (by omega)
        rw [List.append_assoc] at h
        obtain ⟨pieces', hread, hpieces'⟩ := ih left rest (List.append_cancel_left h)
        refine ⟨pieces', ?_, hpieces'⟩
        rw [← hlength, List.length_append, Nat.add_sub_cancel_left, hread]
        rfl

end Veryfront.Lib.Delivery
