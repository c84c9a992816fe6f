import Mathlib.Data.List.Sort
import Veryfront.Lib.Decimal
import Veryfront.Lib.OrdMap
import Veryfront.Utils.Text

/-!
# Plain objects

An object literal as a dictionary. Under a name that the object does not have itself, its prototype is asked, and the
names that are array indices come first when its entries are listed.
-/

namespace Veryfront

open Lib

/-- What every plain object inherits. -/
structure Prototype where
  /-- What is found under a name, as text. -/
  inherited : Text → Option Text
  /-- Whether an assignment under a name is taken by the prototype. -/
  accessor : Text → Bool

/-- An object inherits something under the name, and can be given a property of it. -/
def Prototype.Shadows (prototype : Prototype) (name : Text) : Prop :=
  (prototype.inherited name).isSome ∧ prototype.accessor name = false

variable {prototype : Prototype} {α : Type}

structure PlainObject (prototype : Prototype) (α : Type) where
  own : OrdMap Text α
  assigned : ∀ name ∈ own.keys, prototype.accessor name = false

/-! ## Own properties in order -/

def arrayIndex (name : Text) : Option Nat :=
  let value := digitsValue name
  if name ≠ [] ∧ value ≤ 4294967294 ∧ decimal value = name then some value else none

/-- The indices in numeric order, and then the other names as they were created. -/
def ownOrder (names : List Text) : List Text :=
  (names.filter fun name => (arrayIndex name).isSome).insertionSort
      (fun left right => (arrayIndex left).getD 0 ≤ (arrayIndex right).getD 0) ++
    names.filter fun name => (arrayIndex name).isNone

theorem ownOrder_perm (names : List Text) : (ownOrder names).Perm names := by
  have hsplit := List.filter_append_perm (fun name => (arrayIndex name).isSome) names
  have hnot : (fun name => !(arrayIndex name).isSome) = fun name => (arrayIndex name).isNone := by
    funext name
    cases arrayIndex name <;> rfl
  rw [hnot] at hsplit
  exact ((List.perm_insertionSort _ _).append_right _).trans hsplit

namespace PlainObject

def empty : PlainObject prototype α := ⟨.empty, nofun⟩

/-- `object[name] = value` -/
def assign (object : PlainObject prototype α) (name : Text) (value : α) : PlainObject prototype α :=
  if h : prototype.accessor name then object
  else
    { own := object.own.set name value
      assigned := by
        intro other hother
        rw [OrdMap.keys_set] at hother
        split at hother
        · exact object.assigned other hother
        · rcases List.mem_append.mp hother with hother | hother
          · exact object.assigned other hother
          · rw [List.mem_singleton.mp hother]
            exact Bool.eq_false_iff.mpr h }

/-- `object[name]` -/
def read (object : PlainObject prototype Text) (name : Text) : Option Text :=
  (object.own.get? name).or (prototype.inherited name)

/-- `Object.entries` -/
def entries (object : PlainObject prototype α) : List (Text × α) :=
  (ownOrder object.own.keys).filterMap fun name => (object.own.get? name).map (name, ·)

/-! ## Assignments -/

theorem get?_assign (object : PlainObject prototype α) (name : Text) (value : α) (other : Text) :
    (object.assign name value).own.get? other =
      if other = name ∧ prototype.accessor name = false then some value else object.own.get? other := by
  rw [assign]
  split
  · simp_all
  · simp_all

theorem keys_assign (object : PlainObject prototype α) (name : Text) (value : α) :
    (object.assign name value).own.keys =
      if prototype.accessor name ∨ name ∈ object.own.keys then object.own.keys else object.own.keys ++ [name] := by
  rw [assign]
  split
  · simp_all
  · simp_all [OrdMap.keys_set]

variable {name : Text}

theorem accessor_eq_false (object : PlainObject prototype α) {value : α} (h : object.own.get? name = some value) :
    prototype.accessor name = false := by
  refine object.assigned name ?_
  by_contra hname
  rw [(OrdMap.get?_eq_none _ _).mpr hname] at h
  cases h

theorem get?_eq_none_of_accessor (object : PlainObject prototype α) (h : prototype.accessor name = true) :
    object.own.get? name = none := by
  rw [OrdMap.get?_eq_none]
  intro hname
  rw [object.assigned name hname] at h
  cases h

/-! ## Entries -/

variable {object : PlainObject prototype α}

theorem mem_entries {value : α} :
    (name, value) ∈ object.entries ↔ object.own.get? name = some value := by
  rw [entries, List.mem_filterMap]
  constructor
  · rintro ⟨other, -, hother⟩
    obtain ⟨found, hfound, heq⟩ := Option.map_eq_some_iff.mp hother
    obtain ⟨rfl, rfl⟩ := Prod.mk.inj heq
    exact hfound
  · intro h
    refine ⟨name, (ownOrder_perm _).mem_iff.mpr ?_, by rw [h]; rfl⟩
    by_contra hname
    rw [(OrdMap.get?_eq_none _ _).mpr hname] at h
    cases h

theorem map_fst_entries (object : PlainObject prototype α) : object.entries.map Prod.fst = ownOrder object.own.keys := by
  have hfst : ∀ name ∈ ownOrder object.own.keys, ((object.own.get? name).map (name, ·)).map Prod.fst = some name := by
    intro name hname
    cases hget : object.own.get? name with
    | some value => rfl
    | none => exact absurd ((ownOrder_perm _).mem_iff.mp hname) ((OrdMap.get?_eq_none _ _).mp hget)
  rw [entries, List.map_filterMap, List.filterMap_congr hfst, List.filterMap_some]

theorem nodup_entries (object : PlainObject prototype α) : (object.entries.map Prod.fst).Nodup := by
  rw [map_fst_entries]
  exact (ownOrder_perm _).nodup_iff.mpr object.own.keys_nodup

theorem keys_assign_empty (h : prototype.accessor name = false) (value : α) :
    ((empty : PlainObject prototype α).assign name value).own.keys = [name] := by
  rw [keys_assign, h]
  rfl

theorem entries_assign_empty (h : prototype.accessor name = false) (value : α) :
    ((empty : PlainObject prototype α).assign name value).entries = [(name, value)] := by
  have hget : ((empty : PlainObject prototype α).assign name value).own.get? name = some value := by
    rw [get?_assign, if_pos ⟨rfl, h⟩]
  rw [entries, keys_assign_empty h, List.perm_singleton.mp (ownOrder_perm [name]), List.filterMap_cons_some (by rw [hget]; rfl)]
  rfl

theorem entries_assign_of_name (h : prototype.accessor name = false)
    (hindex : arrayIndex name = none) (hname : name ∉ object.own.keys) (value : α) :
    (object.assign name value).entries = object.entries ++ [(name, value)] := by
  have hkeys : (object.assign name value).own.keys = object.own.keys ++ [name] := by
    rw [keys_assign, if_neg (by simp [h, hname])]
  have horder : ownOrder (object.own.keys ++ [name]) = ownOrder object.own.keys ++ [name] := by
    simp [ownOrder, hindex]
  have hold : ∀ other ∈ ownOrder object.own.keys, ((object.assign name value).own.get? other).map (other, ·) =
      (object.own.get? other).map (other, ·) := by
    intro other hother
    have hne : other ≠ name := by
      rintro rfl
      exact hname ((ownOrder_perm _).mem_iff.mp hother)
    rw [get?_assign, if_neg fun h => hne h.1]
  have hnew : (object.assign name value).own.get? name = some value := by rw [get?_assign, if_pos ⟨rfl, h⟩]
  rw [entries, hkeys, horder, List.filterMap_append, List.filterMap_congr hold]
  simp [hnew, entries]

theorem entries_forall₂ {β : Type} {R : α → β → Prop} {object' : PlainObject prototype β}
    (hkeys : object.own.keys = object'.own.keys)
    (h : ∀ name value value', object.own.get? name = some value → object'.own.get? name = some value' → R value value') :
    List.Forall₂ (fun entry entry' => entry.1 = entry'.1 ∧ R entry.2 entry'.2) object.entries object'.entries := by
  have hlist : ∀ names : List Text, (∀ name ∈ names, name ∈ object.own.keys) →
      List.Forall₂ (fun entry entry' => entry.1 = entry'.1 ∧ R entry.2 entry'.2)
        (names.filterMap fun name => (object.own.get? name).map (name, ·))
        (names.filterMap fun name => (object'.own.get? name).map (name, ·)) := by
    intro names hnames
    induction names with
    | nil => exact .nil
    | cons name names ih =>
      have hname := hnames name List.mem_cons_self
      obtain ⟨value, hvalue⟩ := Option.ne_none_iff_exists'.mp fun hnone => (OrdMap.get?_eq_none _ _).mp hnone hname
      obtain ⟨value', hvalue'⟩ := Option.ne_none_iff_exists'.mp fun hnone =>
        (OrdMap.get?_eq_none _ _).mp hnone (hkeys ▸ hname)
      rw [List.filterMap_cons_some (by rw [hvalue]; rfl), List.filterMap_cons_some (by rw [hvalue']; rfl)]
      exact .cons ⟨rfl, h name value value' hvalue hvalue'⟩ (ih fun other hother => hnames other (List.mem_cons_of_mem _ hother))
  rw [entries, entries, ← hkeys]
  exact hlist _ fun name hname => (ownOrder_perm _).mem_iff.mp hname

theorem get?_copy (object : PlainObject prototype α) (name : Text) :
    (object.entries.foldl (fun copy entry => copy.assign entry.1 entry.2) (empty : PlainObject prototype α)).own.get? name =
      object.own.get? name := by
  have hlist : ∀ (es : List (Text × α)) (copy : PlainObject prototype α), (es.map Prod.fst).Nodup →
      (∀ e ∈ es, prototype.accessor e.1 = false) → ∀ value,
      ((es.foldl (fun copy entry => copy.assign entry.1 entry.2) copy).own.get? name = some value ↔
        (name, value) ∈ es ∨ name ∉ es.map Prod.fst ∧ copy.own.get? name = some value) := by
    intro es
    induction es with
    | nil => simp
    | cons e es ih =>
      intro copy hnodup haccessor value
      rw [List.map_cons, List.nodup_cons] at hnodup
      rw [List.foldl_cons, ih _ hnodup.2 (fun e' he' => haccessor e' (List.mem_cons_of_mem _ he')), get?_assign,
        List.mem_cons, List.map_cons, List.mem_cons]
      have he := haccessor e List.mem_cons_self
      by_cases hname : name = e.1
      · subst hname
        have hnot : (e.1, value) ∉ es := fun hmem => hnodup.1 (List.mem_map.mpr ⟨_, hmem, rfl⟩)
        simp [hnodup.1, he, hnot, Prod.ext_iff, eq_comm]
      · simp [hname, Prod.ext_iff]
  apply Option.ext
  intro value
  rw [hlist _ _ object.nodup_entries fun e he => object.accessor_eq_false (mem_entries.mp he), mem_entries]
  simp [empty]

end PlainObject

end Veryfront
