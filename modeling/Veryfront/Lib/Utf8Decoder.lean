import Veryfront.Lib.Unicode

/-!
# A decoder that replaces

Octets that are no UTF-8 become replacement characters, one for each longest part that starts a character.
-/

namespace Veryfront.Lib.Utf8

def replacement : Nat := 0xFFFD

/-- A character that has been started: how many octets it lacks, its bits so far, and the bounds of the next octet. -/
structure Started where
  needed : Nat
  bits : Nat
  lower : Nat
  upper : Nat

/-- What an octet gives that no character waits for, and what it starts. -/
def startAt (octet : Nat) : List Nat × Option Started :=
  if octet < 0x80 then ([octet], none)
  else if octet < 0xC2 then ([replacement], none)
  else if octet < 0xE0 then ([], some ⟨1, octet - 0xC0, 0x80, 0xBF⟩)
  else if octet < 0xF0 then
    ([], some ⟨2, octet - 0xE0, if octet = 0xE0 then 0xA0 else 0x80, if octet = 0xED then 0x9F else 0xBF⟩)
  else if octet < 0xF5 then
    ([], some ⟨3, octet - 0xF0, if octet = 0xF0 then 0x90 else 0x80, if octet = 0xF4 then 0x8F else 0xBF⟩)
  else ([replacement], none)

def decodeFrom : Option Started → List Nat → List Nat
  | none, [] => []
  | some _, [] => [replacement]
  | none, octet :: rest => (startAt octet).1 ++ decodeFrom (startAt octet).2 rest
  | some started, octet :: rest =>
    if started.lower ≤ octet ∧ octet ≤ started.upper then
      let bits := 64 * started.bits + (octet - 0x80)
      if started.needed = 1 then bits :: decodeFrom none rest
      else decodeFrom (some ⟨started.needed - 1, bits, 0x80, 0xBF⟩) rest
    else replacement :: (startAt octet).1 ++ decodeFrom (startAt octet).2 rest

/-- The code points of octets. A byte order mark in front is left out. -/
def decode (octets : List Nat) : List Nat :=
  decodeFrom none (if [0xEF, 0xBB, 0xBF].isPrefixOf octets then octets.drop 3 else octets)

theorem decodeFrom_last {started : Started} {octet : Nat} (hneeded : started.needed = 1)
    (h : started.lower ≤ octet ∧ octet ≤ started.upper) (rest : List Nat) :
    decodeFrom (some started) (octet :: rest) = (64 * started.bits + (octet - 0x80)) :: decodeFrom none rest := by
  rw [decodeFrom, if_pos h]
  exact if_pos hneeded

theorem decodeFrom_more {started : Started} {octet : Nat} (hneeded : started.needed ≠ 1)
    (h : started.lower ≤ octet ∧ octet ≤ started.upper) (rest : List Nat) :
    decodeFrom (some started) (octet :: rest) =
      decodeFrom (some ⟨started.needed - 1, 64 * started.bits + (octet - 0x80), 0x80, 0xBF⟩) rest := by
  rw [decodeFrom, if_pos h]
  exact if_neg hneeded

theorem decodeFrom_encode {point : Nat} (hpoint : Scalar point) (rest : List Nat) :
    decodeFrom none (encode point ++ rest) = point :: decodeFrom none rest := by
  have hlt := hpoint.lt
  have hno := hpoint.not_surrogate
  rw [isSurrogate_iff] at hno
  rw [encode]
  split
  · rename_i h1
    rw [List.singleton_append, decodeFrom, startAt, if_pos h1]
    rfl
  split
  · rw [List.cons_append, List.singleton_append, decodeFrom, startAt, if_neg (by omega), if_neg (by omega), if_pos (by omega),
      List.nil_append, decodeFrom_last rfl ⟨by dsimp only; omega, by dsimp only; omega⟩]
    rw [List.cons.injEq]
    exact ⟨by dsimp only; omega, rfl⟩
  split
  · rw [List.cons_append, List.cons_append, List.singleton_append, decodeFrom, startAt, if_neg (by omega), if_neg (by omega),
      if_neg (by omega), if_pos (by omega), List.nil_append,
      decodeFrom_more (Nat.succ_succ_ne_one _) ⟨by dsimp only; split <;> omega, by dsimp only; split <;> omega⟩,
      decodeFrom_last rfl ⟨by dsimp only; omega, by dsimp only; omega⟩]
    rw [List.cons.injEq]
    exact ⟨by dsimp only; omega, rfl⟩
  · rw [List.cons_append, List.cons_append, List.cons_append, List.singleton_append, decodeFrom, startAt, if_neg (by omega),
      if_neg (by omega), if_neg (by omega), if_neg (by omega), if_pos (by omega), List.nil_append,
      decodeFrom_more (Nat.succ_succ_ne_one _) ⟨by dsimp only; split <;> omega, by dsimp only; split <;> omega⟩,
      decodeFrom_more (Nat.succ_succ_ne_one _) ⟨by dsimp only; omega, by dsimp only; omega⟩,
      decodeFrom_last rfl ⟨by dsimp only; omega, by dsimp only; omega⟩]
    rw [List.cons.injEq]
    exact ⟨by dsimp only; omega, rfl⟩

theorem decodeFrom_flatMap {points : List Nat} (h : ∀ point ∈ points, Scalar point) :
    decodeFrom none (points.flatMap encode) = points := by
  induction points with
  | nil => rfl
  | cons point points ih =>
    rw [List.flatMap_cons, decodeFrom_encode (h point List.mem_cons_self), ih fun p hp => h p (List.mem_cons_of_mem _ hp)]

theorem decode_flatMap {points : List Nat} (h : ∀ point ∈ points, Scalar point)
    (hmark : (points.flatMap encode).head? ≠ some 0xEF) : decode (points.flatMap encode) = points := by
  rw [decode, if_neg, decodeFrom_flatMap h]
  intro hpre
  obtain ⟨rest, hrest⟩ := List.isPrefixOf_iff_prefix.mp hpre
  rw [← hrest] at hmark
  exact hmark rfl

end Veryfront.Lib.Utf8
