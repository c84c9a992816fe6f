import Veryfront.Lib.OrdMap
import Veryfront.Routing.RouteParser
import Veryfront.Utils.UriComponent

/-!
# Matching a path against a route

The regular expression of a route is run by backtracking, the longest run of a group first. The groups are
decoded into the parameters of the match.
-/

namespace Veryfront.Routing

open Lib

/-! ## Running the regular expression -/

section Groups

variable {β : Type} (ok : Nat → Bool) (next : Text → Option β)

/-- A run of `ok` units, as long as `next` can go on after it. -/
def longestRun : Text → Option (Text × β)
  | [] => (next []).map ([], ·)
  | c :: rest =>
    (if ok c then (longestRun rest).map fun (run, b) => (c :: run, b) else none).or
      ((next (c :: rest)).map ([], ·))

def nonemptyRun : Text → Option (Text × β)
  | [] => none
  | c :: rest => if ok c then (longestRun ok next rest).map fun (run, b) => (c :: run, b) else none

variable {ok next}

theorem longestRun_eq {t run : Text} {b : β} (h : longestRun ok next t = some (run, b)) :
    ∃ rest, t = run ++ rest ∧ next rest = some b := by
  induction t generalizing run with
  | nil =>
    obtain ⟨b', hb, hrun⟩ := Option.map_eq_some_iff.mp h
    obtain ⟨rfl, rfl⟩ := Prod.mk.inj hrun
    exact ⟨[], rfl, hb⟩
  | cons c rest ih =>
    rcases Option.or_eq_some_iff.mp h with h | ⟨-, h⟩
    · split at h
      · obtain ⟨⟨tail, b'⟩, htail, hrun⟩ := Option.map_eq_some_iff.mp h
        obtain ⟨rfl, rfl⟩ := Prod.mk.inj hrun
        obtain ⟨after, rfl, hafter⟩ := ih htail
        exact ⟨after, rfl, hafter⟩
      · cases h
    · obtain ⟨b', hb, hrun⟩ := Option.map_eq_some_iff.mp h
      obtain ⟨rfl, rfl⟩ := Prod.mk.inj hrun
      exact ⟨c :: rest, rfl, hb⟩

theorem nonemptyRun_eq {t run : Text} {b : β} (h : nonemptyRun ok next t = some (run, b)) :
    ∃ rest, t = run ++ rest ∧ next rest = some b := by
  cases t with
  | nil => cases h
  | cons c rest =>
    rw [nonemptyRun] at h
    split at h
    · obtain ⟨⟨tail, b'⟩, htail, hrun⟩ := Option.map_eq_some_iff.mp h
      obtain ⟨rfl, rfl⟩ := Prod.mk.inj hrun
      obtain ⟨after, rfl, hafter⟩ := longestRun_eq htail
      exact ⟨after, rfl, hafter⟩
    · cases h

end Groups

/-- What the dot stands for: all but the line ends. -/
def dot (c : Nat) : Bool := c ∉ [10, 13, 0x2028, 0x2029]

/-- The captured groups, `none` for one that takes no part in the match. -/
def exec : List RegexPart → Text → Option (List (Option Text))
  | [], t => if t = [] then some [] else none
  | .literal text :: parts, t => if text.isPrefixOf t then exec parts (t.drop text.length) else none
  | .segment :: parts, t => (nonemptyRun (· ≠ slash) (exec parts) t).map fun (run, groups) => some run :: groups
  | .some :: parts, t => (nonemptyRun dot (exec parts) t).map fun (run, groups) => some run :: groups
  | .any :: parts, t => (longestRun dot (exec parts) t).map fun (run, groups) => some run :: groups
  | .optionalTail :: parts, t =>
    (if t.head? = some slash then
      (longestRun dot (exec parts) t.tail).map fun (run, groups) => some run :: groups
    else none).or ((exec parts t).map (none :: ·))

/-! ## Decoding -/

def safeDecodeParam (value : Text) : Text := (decodeURIComponent value).getD value

/-! ## The match -/

inductive ParamValue
  | one (value : Text)
  | many (values : List Text)
deriving DecidableEq

structure RouteMatch where
  params : OrdMap Text ParamValue
  route : Route

/-- The names in single or double brackets; the outer brackets do not change which names these are. -/
def extractCatchAllParams (pattern : Text) : List Text := pattern.tails.filterMap (bracketed "[..." "]")

def decodeCatchAllValue (value : Text) : List Text := ((value.splitOn slash).filter (· ≠ [])).map safeDecodeParam

/-- An assignment on an object with the usual prototype. The prototype's own name makes no entry. -/
def setProperty (params : OrdMap Text ParamValue) (name : Text) (value : ParamValue) : OrdMap Text ParamValue :=
  if name = .of "__proto__" then params else params.set name value

def paramsOf (route : Route) (groups : List (Option Text)) : OrdMap Text ParamValue :=
  route.paramNames.zipIdx.foldl
    (fun params (name, index) =>
      let value := (groups[index]?.join).getD []
      setProperty params name
        (if name ∈ extractCatchAllParams route.pattern then .many (decodeCatchAllValue value)
        else .one (safeDecodeParam value)))
    .empty

def matchRoute (pathname : Text) (route : Route) : Option RouteMatch :=
  (exec route.regex pathname).map fun groups => ⟨paramsOf route groups, route⟩

theorem matchRoute_route {pathname : Text} {route : Route} {m : RouteMatch} (h : matchRoute pathname route = some m) :
    m.route = route := by
  obtain ⟨groups, -, rfl⟩ := Option.map_eq_some_iff.mp h
  rfl

end Veryfront.Routing
