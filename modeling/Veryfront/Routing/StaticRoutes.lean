import Veryfront.Routing.PageRouteMatcher

/-!
# Static routes first

A route without parameters is to win over the others that match, and a catch-all is to yield where another route
that is the same so far has a static segment or a single parameter. The order of the routes is that of their
specificity, a sum over the segments, so a longer pattern can outweigh a more specific one.
-/

namespace Veryfront.Routing

open Lib

/-! ## What is asked of a match -/

def Parameter.kind : Parameter → Nat
  | optionalCatchAll _ => 1
  | catchAll _ => 2
  | single _ => 3

def shape (segment : Text) : List (Text × Nat) × Text :=
  ((parameters segment).1.map fun (literal, parameter) => (literal, parameter.kind), (parameters segment).2)

def isCatchAllSegment (segment : Text) : Bool := (parameters segment).1.any fun p => p.2.isCatchAll

/-- A catch-all on the left, where the right has a static segment or a single parameter after the same start. -/
def yieldsTo : List Text → List Text → Bool
  | a :: as, b :: bs =>
    (isCatchAllSegment a && !isCatchAllSegment b) || (decide (shape a = shape b) && yieldsTo as bs)
  | _, _ => false

def matchesPath (pathname : Text) (route : Route) : Bool := (matchRoute pathname route).isSome

def Static (route : Route) : Prop := route.paramNames = []

instance (route : Route) : Decidable (Static route) := inferInstanceAs (Decidable (route.paramNames = []))

structure StaticRoutesWin (routes : List Route) (pathname : Text) (result : Option RouteMatch) : Prop where
  static : (∃ route ∈ routes, Static route ∧ matchesPath pathname route) →
    ∃ m, result = some m ∧ m.route ∈ routes ∧ matchesPath pathname m.route ∧ Static m.route
  specific : ∀ m, result = some m → ∀ route ∈ routes, matchesPath pathname route →
    ¬ yieldsTo (segments m.route.pattern) (segments route.pattern)

/-! ## What patterns weigh -/

/-- What a segment falls short of one without brackets. -/
def lack (segment : Text) : Nat :=
  if segment.includes "[[..." then 3 else if segment.includes "[..." then 2 else if segment.includes "[" then 1 else 0

def shortfall (pattern : Text) : Nat := ((segments pattern).map lack).sum

def Outweighs (a b : Text) : Prop :=
  10 * shortfall a + 41 * (segments b).length < 10 * shortfall b + 41 * (segments a).length

def Balances (a b : Text) : Prop :=
  10 * shortfall a + 41 * (segments b).length = 10 * shortfall b + 41 * (segments a).length

theorem getSegmentScore_add (segment : Text) : getSegmentScore segment + lack segment = 4 := by
  cases hoptional : segment.includes "[[..." <;> cases hcatchAll : segment.includes "[..." <;>
    cases hsingle : segment.includes "[" <;> simp [getSegmentScore, segmentPatterns, lack, hoptional, hcatchAll, hsingle]

theorem score_add (route : Route) :
    getSpecificityScore route + 10 * shortfall route.pattern = 41 * (segments route.pattern).length := by
  rw [getSpecificityScore, shortfall]
  induction segments route.pattern with
  | nil => rfl
  | cons segment rest ih =>
    have := getSegmentScore_add segment
    simp only [List.map_cons, List.sum_cons, List.length_cons]
    omega

theorem outweighs_iff {a b : Route} : Outweighs a.pattern b.pattern ↔ getSpecificityScore b < getSpecificityScore a := by
  have := score_add a
  have := score_add b
  rw [Outweighs]
  omega

theorem balances_iff {a b : Route} : Balances a.pattern b.pattern ↔ getSpecificityScore a = getSpecificityScore b := by
  have := score_add a
  have := score_add b
  rw [Balances]
  omega

/-- Where the path itself is a static route, no match with parameters outweighs the path, or weighs the same and was
registered first. -/
def StaticAhead (routes : List Route) (pathname : Text) : Prop :=
  (∃ route ∈ routes, Static route ∧ route.pattern = pathname) →
    ∀ before rival after, routes = before ++ rival :: after → ¬ Static rival → matchesPath pathname rival →
      ¬ Outweighs rival.pattern pathname ∧
        (Balances rival.pattern pathname → ∃ route ∈ before, Static route ∧ route.pattern = pathname)

/-- A match with a catch-all that should yield is outweighed by another match, or one that weighs the same was
registered earlier. -/
def CatchAllsBehind (routes : List Route) (pathname : Text) : Prop :=
  ∀ before route after, routes = before ++ route :: after → matchesPath pathname route →
    (∃ other ∈ routes, matchesPath pathname other ∧ yieldsTo (segments route.pattern) (segments other.pattern)) →
      (∃ rival ∈ before, matchesPath pathname rival ∧
          (Outweighs rival.pattern route.pattern ∨ Balances rival.pattern route.pattern)) ∨
        ∃ rival ∈ after, matchesPath pathname rival ∧ Outweighs rival.pattern route.pattern

/-! ## Static patterns -/

theorem scanParameters_static {pattern : Text} : ∀ {literal : Text}, (scanParameters 0 literal pattern).1 = [] →
    (scanParameters 0 literal pattern).2 = literal.reverse ++ pattern := by
  induction pattern with
  | nil => exact fun _ => (List.append_nil _).symm
  | cons c rest ih =>
    intro literal h
    rw [scanParameters] at h ⊢
    split at h
    · cases h
    · rw [ih h, List.reverse_cons, List.append_assoc]
      rfl

theorem matchesPath_static {pattern page pathname : Text} (hstatic : Static (parseRoute pattern page)) :
    matchesPath pathname (parseRoute pattern page) = true ↔ pattern = pathname := by
  have hnone : (parameters pattern).1 = [] := List.map_eq_nil_iff.mp hstatic
  have htail : (parameters pattern).2 = pattern := scanParameters_static hnone
  rw [matchesPath, matchRoute, Option.isSome_map]
  simp only [parseRoute, hnone, htail, regexParts, exec]
  constructor
  · intro h
    split at h
    · rename_i hpre
      obtain ⟨rest, rfl⟩ := List.isPrefixOf_iff_prefix.mp hpre
      rw [List.drop_left] at h
      split at h
      · rename_i hrest
        rw [hrest, List.append_nil]
      · cases h
    · cases h
  · rintro rfl
    simp

/-- As they are registered. -/
def Parsed (routes : List Route) : Prop := ∀ route ∈ routes, ∃ pattern page, route = parseRoute pattern page

theorem Parsed.static_iff {routes : List Route} (h : Parsed routes) {route : Route} (hroute : route ∈ routes)
    (hstatic : Static route) {pathname : Text} : matchesPath pathname route = true ↔ route.pattern = pathname := by
  obtain ⟨pattern, page, rfl⟩ := h route hroute
  exact matchesPath_static hstatic

theorem PageRouteMatcher.registered_parsed (calls : List PageRouteMatcher.Call) : Parsed (registered calls) := by
  intro route hroute
  obtain ⟨call, -, hcall⟩ := List.mem_filterMap.mp hroute
  cases call with
  | addRoute pattern page => exact ⟨pattern, page, (Option.some.inj hcall).symm⟩
  | matchPath pathname => cases hcall
  | clearCache => cases hcall

namespace PageRouteMatcher

/-! ## The route that is found -/

theorem firstMatch_eq (routes : List Route) (pathname : Text) :
    firstMatch routes pathname = (routes.find? (matchesPath pathname)).bind (matchRoute pathname) := by
  induction routes with
  | nil => rfl
  | cons route routes ih =>
    rw [firstMatch, List.findSome?_cons, List.find?_cons]
    cases hmatch : matchRoute pathname route with
    | none =>
      simp only [matchesPath, hmatch, Option.isSome_none]
      exact ih
    | some m => simp [matchesPath, hmatch]

theorem Sound.firstMatch {matcher : PageRouteMatcher} {routes : List Route} (h : matcher.Sound routes) (pathname : Text) :
    (∀ route ∈ routes, matchesPath pathname route = false) ∧ firstMatch matcher.routes pathname = none ∨
      ∃ m, firstMatch matcher.routes pathname = some m ∧
        Leads getSpecificityScore (matchesPath pathname) routes m.route := by
  rw [firstMatch_eq]
  cases hfind : matcher.routes.find? (matchesPath pathname) with
  | none => exact .inl ⟨h.ranked.find?_eq_none_iff.mp hfind, rfl⟩
  | some route =>
    have hleads := h.ranked.find?_eq_some_iff.mp hfind
    obtain ⟨m, hm⟩ := Option.isSome_iff_exists.mp hleads.holds
    exact .inr ⟨m, hm, by rwa [matchRoute_route hm]⟩

end PageRouteMatcher

section Leader

variable {routes : List Route} {pathname : Text} {leader : Route}

theorem static_iff_ahead (h : Leads getSpecificityScore (matchesPath pathname) routes leader) (hparsed : Parsed routes)
    (hstatic : ∃ route ∈ routes, Static route ∧ route.pattern = pathname) :
    Static leader ↔ StaticAhead routes pathname := by
  constructor
  · rintro hleader - before rival after rfl hrival hmatch
    have hpath : leader.pattern = pathname := (hparsed.static_iff h.mem hleader).mp h.holds
    rw [← hpath, outweighs_iff, balances_iff]
    rcases h.position hmatch with ⟨hmem, hle⟩ | rfl | ⟨hmem, hlt⟩
    · exact ⟨Nat.not_lt.mpr hle, fun _ => ⟨leader, hmem, hleader, rfl⟩⟩
    · exact absurd hleader hrival
    · exact ⟨Nat.not_lt.mpr (Nat.le_of_lt hlt), fun heq => absurd heq (Nat.ne_of_lt hlt)⟩
  · intro hahead
    by_contra hleader
    obtain ⟨route, hroute, hs, hpath⟩ := hstatic
    have hmatches : ∀ {r}, r ∈ routes → Static r → r.pattern = pathname → matchesPath pathname r = true :=
      fun hr hs hp => (hparsed.static_iff hr hs).mpr hp
    have hle := h.rank_le hroute (hmatches hroute hs hpath)
    obtain ⟨before, after, rfl, hmatch, hbefore, -⟩ := h
    obtain ⟨hnot, hfirst⟩ := hahead ⟨route, hroute, hs, hpath⟩ before leader after rfl hleader hmatch
    rw [← hpath, outweighs_iff] at hnot
    -- The leader weighs as much as the path, so that a static route stands before it, with the same weight.
    have heq := Nat.le_antisymm hle (Nat.not_lt.mp hnot)
    obtain ⟨first, hmem, hs', hpath'⟩ := hfirst (by rw [← hpath, balances_iff]; exact heq.symm)
    have hsame : getSpecificityScore first = getSpecificityScore route := by
      rw [getSpecificityScore, getSpecificityScore, hpath, hpath']
    have hlt := hbefore first hmem (hmatches (List.mem_append_left _ hmem) hs' hpath')
    rw [hsame, heq] at hlt
    exact Nat.lt_irrefl _ hlt

theorem specific_iff_behind (h : Leads getSpecificityScore (matchesPath pathname) routes leader) :
    (∀ route ∈ routes, matchesPath pathname route → ¬ yieldsTo (segments leader.pattern) (segments route.pattern)) ↔
      CatchAllsBehind routes pathname := by
  constructor
  · rintro hspecific before route after rfl hmatch ⟨other, hother, hmatches, hyields⟩
    rcases h.position hmatch with ⟨hmem, hle⟩ | rfl | ⟨hmem, hlt⟩
    · refine .inl ⟨leader, hmem, h.holds, ?_⟩
      rw [outweighs_iff, balances_iff, eq_comm]
      exact Nat.lt_or_eq_of_le hle
    · exact absurd hyields (hspecific other hother hmatches)
    · exact .inr ⟨leader, hmem, h.holds, outweighs_iff.mpr hlt⟩
  · intro hbehind other hother hmatches hyields
    obtain ⟨before, after, hroutes, hmatch, hbefore, hafter⟩ := h
    rcases hbehind before leader after hroutes hmatch ⟨other, hother, hmatches, hyields⟩ with
      ⟨rival, hrival, hm, hweight⟩ | ⟨rival, hrival, hm, hlt⟩
    · rw [outweighs_iff, balances_iff] at hweight
      have hlt := hbefore rival hrival hm
      omega
    · exact absurd (outweighs_iff.mp hlt) (Nat.not_lt.mpr (hafter rival hrival hm))

end Leader

namespace PageRouteMatcher

variable (normalize : Text → Text) (sizeOf : Option RouteMatch → Nat)

theorem staticRoutesWin_iff_weights (calls : List Call) (pathname : Text) :
    StaticRoutesWin (registered calls) (normalizePath normalize pathname)
        ((after normalize sizeOf calls).matchPath normalize sizeOf pathname).2 ↔
      StaticAhead (registered calls) (normalizePath normalize pathname) ∧
        CatchAllsBehind (registered calls) (normalizePath normalize pathname) := by
  have hsound := after_sound normalize sizeOf calls
  have hparsed := registered_parsed calls
  rw [(hsound.matchPath normalize sizeOf pathname).2]
  generalize normalizePath normalize pathname = pathname
  have hexists : (∃ route ∈ registered calls, Static route ∧ route.pattern = pathname) ↔
      ∃ route ∈ registered calls, Static route ∧ matchesPath pathname route :=
    exists_congr fun route => and_congr_right fun hroute => and_congr_right fun hs => (hparsed.static_iff hroute hs).symm
  rcases hsound.firstMatch pathname with ⟨hnone, hfind⟩ | ⟨m, hfind, hleads⟩
  · rw [hfind]
    have hno : ¬ ∃ route ∈ registered calls, Static route ∧ matchesPath pathname route := by
      rintro ⟨route, hroute, -, hmatch⟩
      exact absurd hmatch (by simp [hnone route hroute])
    constructor
    · intro _
      refine ⟨fun h => absurd (hexists.mp h) hno, ?_⟩
      intro before route after hroutes hmatch
      exact absurd hmatch (by simp [hnone route (hroutes ▸ List.mem_append_right before List.mem_cons_self)])
    · intro _
      exact ⟨fun h => absurd h hno, fun _ hm => nomatch hm⟩
  · rw [hfind, ← specific_iff_behind hleads]
    constructor
    · intro h
      refine ⟨fun hstatic => ?_, h.specific m rfl⟩
      obtain ⟨m', hm', -, -, hroute⟩ := h.static (hexists.mp hstatic)
      obtain rfl := Option.some.inj hm'
      exact (static_iff_ahead hleads hparsed hstatic).mp hroute hstatic
    · rintro ⟨hahead, hspecific⟩
      refine ⟨fun hstatic => ⟨m, rfl, hleads.mem, hleads.holds,
        (static_iff_ahead hleads hparsed (hexists.mpr hstatic)).mpr hahead⟩, ?_⟩
      intro m' hm'
      obtain rfl := Option.some.inj hm'
      exact hspecific

end PageRouteMatcher

end Veryfront.Routing
