import Mathlib.Data.List.Induction
import Veryfront.Lib.Priority
import Veryfront.Routing.RouteMatcher

/-!
# The page route matcher

Routes are kept by falling specificity and sorted again with every new one. A path is normalised, looked up in
a bounded cache of earlier results, misses included, and else tried against one route after the other. `normalize`
is the path normalisation of the host, and `portableNormalize` stands in where the host has none.
-/

namespace Veryfront.Routing

open Lib

/-! ## Paths -/

def backslash : Nat := 92

def forwardSlashes : Text → Text
  | [] => []
  | c :: rest =>
    if c = backslash then
      if rest.head? = some backslash then forwardSlashes rest else slash :: forwardSlashes rest
    else c :: forwardSlashes rest

def stripTrailingSlash (pathname : Text) : Text :=
  if pathname = [slash] then pathname else (pathname.reverse.dropWhile (· = slash)).reverse

def normalizePath (normalize : Text → Text) (pathname : Text) : Text :=
  if pathname = [] then pathname else stripTrailingSlash (normalize (forwardSlashes pathname))

/-- The segments so far, last one first. -/
def normalizeTail (absolute : Bool) : List Text → List Text → List Text
  | normalized, [] => normalized
  | normalized, segment :: segments =>
    if segment = [] ∨ segment = .of "." then normalizeTail absolute normalized segments
    else if segment ≠ .of ".." then normalizeTail absolute (segment :: normalized) segments
    else
      match normalized with
      | previous :: before =>
        if previous ≠ .of ".." then normalizeTail absolute before segments
        else normalizeTail absolute (if absolute then normalized else segment :: normalized) segments
      | [] => normalizeTail absolute (if absolute then [] else [segment]) segments

/-- For paths without a drive letter or a share, the separators at the end left out. -/
def portableNormalize (path : Text) : Text :=
  let absolute := path.startsWith "/"
  let tail := [slash].intercalate (normalizeTail absolute [] (path.splitOn slash)).reverse
  if absolute then slash :: tail else if tail = [] then .of "." else tail

/-! ## The cache -/

def routeCacheMaxEntries : Nat := 500

def defaultMaxSizeBytes : Nat := 50 * 1024 * 1024

/-- Results by path, least recently used first. `sizeOf` estimates what a result takes. -/
structure RouteCache where
  store : OrdMap Text (Option RouteMatch × Nat)
  currentSize : Int

namespace RouteCache

def empty : RouteCache := ⟨.empty, 0⟩

def get (cache : RouteCache) (pathname : Text) : RouteCache × Option (Option RouteMatch) :=
  match cache.store.get? pathname with
  | none => (cache, none)
  | some entry => ({ cache with store := (cache.store.erase pathname).set pathname entry }, some entry.1)

/-- Drops the least recently used entry while a limit is passed, `fuel` times at most. -/
def evict : (fuel : Nat) → RouteCache → RouteCache
  | 0, cache => cache
  | fuel + 1, cache =>
    if routeCacheMaxEntries < cache.store.size ∨ (defaultMaxSizeBytes : Int) < cache.currentSize then
      match cache.store.entries with
      | [] => cache
      | (oldest, entry) :: _ => evict fuel ⟨cache.store.erase oldest, cache.currentSize - entry.2⟩
    else cache

def enforceMemoryLimits (cache : RouteCache) : RouteCache := evict cache.store.size cache

def set (sizeOf : Option RouteMatch → Nat) (cache : RouteCache) (pathname : Text) (result : Option RouteMatch) :
    RouteCache :=
  let oldSize := ((cache.store.get? pathname).map Prod.snd).getD 0
  enforceMemoryLimits
    ⟨(cache.store.erase pathname).set pathname (result, sizeOf result), cache.currentSize + sizeOf result - oldSize⟩

end RouteCache

/-! ## The matcher -/

structure PageRouteMatcher where
  routes : List Route
  cache : RouteCache

namespace PageRouteMatcher

def new : PageRouteMatcher := ⟨[], .empty⟩

def addRoute (matcher : PageRouteMatcher) (pattern page : Text) : PageRouteMatcher :=
  ⟨byRank getSpecificityScore (matcher.routes ++ [parseRoute pattern page]), .empty⟩

def firstMatch (routes : List Route) (pathname : Text) : Option RouteMatch := routes.findSome? (matchRoute pathname)

section Calls

variable (normalize : Text → Text) (sizeOf : Option RouteMatch → Nat)

def matchPath (matcher : PageRouteMatcher) (pathname : Text) : PageRouteMatcher × Option RouteMatch :=
  let pathname := normalizePath normalize pathname
  match matcher.cache.get pathname with
  | (cache, some result) => ({ matcher with cache }, result)
  | (cache, none) =>
    let result := firstMatch matcher.routes pathname
    ({ matcher with cache := cache.set sizeOf pathname result }, result)

def clearCache (matcher : PageRouteMatcher) : PageRouteMatcher := { matcher with cache := .empty }

inductive Call
  | addRoute (pattern page : Text)
  | matchPath (pathname : Text)
  | clearCache
deriving DecidableEq

def perform (matcher : PageRouteMatcher) : Call → PageRouteMatcher
  | .addRoute pattern page => matcher.addRoute pattern page
  | .matchPath pathname => (matcher.matchPath normalize sizeOf pathname).1
  | .clearCache => matcher.clearCache

def after (calls : List Call) : PageRouteMatcher := calls.foldl (perform normalize sizeOf) new

end Calls

def registered (calls : List Call) : List Route :=
  calls.filterMap fun
    | .addRoute pattern page => some (parseRoute pattern page)
    | _ => none

end PageRouteMatcher

/-! ## What the cache returns -/

namespace RouteCache

/-- Every entry holds what `find` says for its path. -/
def Agrees (cache : RouteCache) (find : Text → Option RouteMatch) : Prop :=
  ∀ pathname entry, cache.store.get? pathname = some entry → entry.1 = find pathname

variable {cache : RouteCache} {find : Text → Option RouteMatch}

theorem empty_agrees : RouteCache.empty.Agrees find := fun _ _ h => nomatch h

theorem evict_agrees (fuel : Nat) (h : cache.Agrees find) : (cache.evict fuel).Agrees find := by
  induction fuel generalizing cache with
  | zero => exact h
  | succ fuel ih =>
    rw [evict]
    split
    · split
      · exact h
      · refine ih fun pathname entry hentry => h pathname entry ?_
        rw [OrdMap.get?_erase] at hentry
        split at hentry
        · cases hentry
        · exact hentry
    · exact h

theorem moved_agrees {pathname : Text} {entry : Option RouteMatch × Nat} (h : cache.Agrees find)
    (hentry : entry.1 = find pathname) (size : Int) :
    RouteCache.Agrees ⟨(cache.store.erase pathname).set pathname entry, size⟩ find := by
  intro other entry' hother
  rw [OrdMap.get?_set] at hother
  split at hother
  · rename_i heq
    obtain rfl := Option.some.inj hother
    rw [hentry, heq]
  · rw [OrdMap.get?_erase] at hother
    split at hother
    · cases hother
    · exact h other entry' hother

theorem set_agrees (sizeOf : Option RouteMatch → Nat) (pathname : Text) (h : cache.Agrees find) :
    (cache.set sizeOf pathname (find pathname)).Agrees find :=
  evict_agrees _ (moved_agrees h rfl _)

theorem get_agrees (pathname : Text) (h : cache.Agrees find) :
    (cache.get pathname).1.Agrees find ∧ ∀ result, (cache.get pathname).2 = some result → result = find pathname := by
  rw [get]
  split
  · exact ⟨h, fun _ hresult => nomatch hresult⟩
  · rename_i entry hentry
    refine ⟨moved_agrees h (h pathname entry hentry) _, ?_⟩
    intro result hresult
    obtain rfl := Option.some.inj hresult
    exact h pathname entry hentry

end RouteCache

namespace PageRouteMatcher

/-- The routes stand by falling specificity, and the cache holds what they give. -/
structure Sound (matcher : PageRouteMatcher) (routes : List Route) : Prop where
  ranked : Ranked getSpecificityScore routes matcher.routes
  agrees : matcher.cache.Agrees (firstMatch matcher.routes)

theorem new_sound : new.Sound [] := ⟨.nil, RouteCache.empty_agrees⟩

theorem Sound.addRoute {matcher : PageRouteMatcher} {routes : List Route} (h : matcher.Sound routes) (pattern page : Text) :
    (matcher.addRoute pattern page).Sound (routes ++ [parseRoute pattern page]) :=
  ⟨h.ranked.push _, RouteCache.empty_agrees⟩

variable (normalize : Text → Text) (sizeOf : Option RouteMatch → Nat)

theorem Sound.matchPath {matcher : PageRouteMatcher} {routes : List Route} (h : matcher.Sound routes) (pathname : Text) :
    (matcher.matchPath normalize sizeOf pathname).1.Sound routes ∧
      (matcher.matchPath normalize sizeOf pathname).2 = firstMatch matcher.routes (normalizePath normalize pathname) := by
  obtain ⟨hget, hresult⟩ := RouteCache.get_agrees (normalizePath normalize pathname) h.agrees
  rw [PageRouteMatcher.matchPath]
  split
  · rename_i cache result heq
    rw [heq] at hget hresult
    exact ⟨⟨h.ranked, hget⟩, hresult result rfl⟩
  · rename_i cache heq
    rw [heq] at hget
    exact ⟨⟨h.ranked, RouteCache.set_agrees sizeOf _ hget⟩, rfl⟩

theorem after_sound (calls : List Call) : (after normalize sizeOf calls).Sound (registered calls) := by
  induction calls using List.reverseRecOn with
  | nil => exact new_sound
  | append_singleton calls call ih =>
    have hregistered : registered (calls ++ [call]) = registered calls ++ registered [call] := List.filterMap_append
    rw [after, List.foldl_append, hregistered]
    cases call with
    | addRoute pattern page => exact ih.addRoute pattern page
    | matchPath pathname =>
      rw [show registered [.matchPath pathname] = [] from rfl, List.append_nil]
      exact (ih.matchPath normalize sizeOf pathname).1
    | clearCache =>
      rw [show registered [.clearCache] = [] from rfl, List.append_nil]
      exact ⟨ih.ranked, RouteCache.empty_agrees⟩

end PageRouteMatcher

end Veryfront.Routing
