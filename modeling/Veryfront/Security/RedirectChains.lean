import Veryfront.Security.GuardedEgressFetch

/-!
# Chains of redirects

Whatever the network answers, no hop is sent unchecked, credentials stay with the first origin and a dropped body stays dropped.
-/

namespace Veryfront.Security.Egress

/-! ## What a call lets out -/

def sentRequests (log : List Event) : List SentRequest :=
  log.filterMap fun
    | .sent _ request => some request
    | _ => none

def answers (log : List Event) : List (Url × Response) :=
  log.filterMap fun
    | .answered url response => some (url, response)
    | _ => none

def redirects (log : List Event) : List Redirect :=
  log.filterMap fun
    | .redirected redirect => some redirect
    | _ => none

/-- The redirects whose destinations answered. -/
def legs : List (Url × Response) → List Redirect
  | source :: target :: rest => ⟨source.2.status, source.1, target.1⟩ :: legs (target :: rest)
  | _ => []

def TurnedToGet (requests : List SentRequest) : Prop :=
  ∃ before source target after, requests = before ++ source :: target :: after ∧ source.method ≠ .of "GET" ∧
    target.method = .of "GET"

def Free (names : List Text) (headers : Headers) : Prop := ∀ name ∈ names, name ∉ headers.map (·.1)

def originalBytes (input : RequestInfo) (init : RequestInit) : Option (List Nat) :=
  match init.body, input with
  | some body, _ => some body.bytes
  | none, .request request => request.body.map Body.bytes
  | none, .url _ => none

structure Checked (platform : Platform) (deps : GuardedEgressFetchDeps) (hop : Nat) (url : Url) (transport : Transport)
    (events : List Event) : Prop where
  authorized : ∀ authorizeUrl, deps.authorizeUrl = some authorizeUrl →
    authorizeUrl hop url = .ok () ∧ .authorized hop url ∈ events
  admitted : url.isHttp → deps.httpBroker = none → deps.socksProxy = false → ∃ addresses,
    resolveWorkerHostEgressAddresses platform.cases platform.env (stripIpv6Brackets url.hostname) (deps.options hop)
      deps.allowedResolvedAddressesForTests = .ok addresses ∧ .admitted hop url addresses ∈ events ∧
      (transport = .pinned addresses ∨ transport = .tunnel addresses)

/-- What holds of the events of a call. -/
structure Guarded (platform : Platform) (deps : GuardedEgressFetchDeps) (input : RequestInfo) (init : RequestInit)
    (log : List Event) : Prop where
  bounded : (sentRequests log).length ≤ maxEgressRedirects + 1
  checked : ∀ before hop request after, log = before ++ .sent hop request :: after →
    hop = (sentRequests before).length ∧ platform.urls.parse request.url none = some request.parsedUrl ∧
      (0 < hop → request.parsedUrl.isHttp) ∧ Checked platform deps hop request.parsedUrl request.transport before
  credentials : ∀ before first between other after, sentRequests log = before ++ first :: (between ++ other :: after) →
    other.parsedUrl.origin ≠ first.parsedUrl.origin → ∀ request ∈ other :: after, Free crossOriginCredentialHeaders request.headers
  body : ∀ before request after, sentRequests log = before ++ request :: after →
    (TurnedToGet (before ++ [request]) → request.body = none ∧ Free bodyHeaders request.headers) ∧
      (¬ TurnedToGet (before ++ [request]) → request.body.map Body.bytes = originalBytes input init)
  observed : deps.onRedirect.isSome → redirects log = legs (answers log)

/-! ## Headers -/

variable {names : List Text} {headers : Headers}

theorem Free.mono {headers' : Headers} (h : Free names headers) (hsub : ∀ header ∈ headers', header ∈ headers) :
    Free names headers' := by
  intro name hname hmem
  obtain ⟨header, hheader, rfl⟩ := List.mem_map.mp hmem
  exact h _ hname (List.mem_map_of_mem (hsub header hheader))

theorem Free.set (h : Free names headers) {name : Text} (hname : name ∉ names) (value : Text) :
    Free names (headers.set name value) := by
  intro other hother hmem
  rw [Headers.set, List.map_append, List.mem_append] at hmem
  rcases hmem with hmem | hmem
  · exact h.mono (fun _ => List.mem_of_mem_filter) other hother hmem
  · obtain rfl := List.mem_singleton.mp hmem
    exact hname hother

theorem mem_foldl_delete (names : List Text) (headers : Headers) (header : Text × Text) :
    header ∈ names.foldl Headers.delete headers ↔ header ∈ headers ∧ header.1 ∉ names := by
  induction names generalizing headers with
  | nil => simp
  | cons name names ih =>
    rw [List.foldl_cons, ih, Headers.delete, List.mem_filter, decide_eq_true_eq, List.mem_cons, not_or, and_assoc]

theorem free_foldl_delete (names : List Text) (headers : Headers) : Free names (names.foldl Headers.delete headers) := by
  intro name hname hmem
  obtain ⟨header, hheader, rfl⟩ := List.mem_map.mp hmem
  exact ((mem_foldl_delete names headers header).mp hheader).2 hname

theorem Free.requestOf {chain : Chain} (h : Free names chain.headers) (hauth : brokerAuthHeader ∉ names)
    (htarget : brokerTargetHeader ∉ names) (url : Url) (transport : Transport) :
    Free names (requestOf chain url transport).headers := by
  cases transport with
  | broker broker =>
    have hstripped : Free names ((stripHopByHopHeaders chain.headers).delete (.of "content-length")) :=
      h.mono fun header hmem => ((mem_foldl_delete _ _ header).mp (List.mem_of_mem_filter hmem)).1
    exact (hstripped.set hauth broker.token).set htarget chain.url
  | socksProxy | pinned | tunnel | platform => exact h

/-! ## One hop -/

variable {platform : Platform} {deps : GuardedEgressFetchDeps} {network : Nat → Answer} {mode : RequestRedirect} {hop : Nat}
  {chain next : Chain} {url : Url} {response : Response} {transport : Transport} {checks : List Event}

structure Followed (platform : Platform) (hop : Nat) (chain : Chain) (url : Url) (response : Response) (next : Chain) (nextUrl : Url) :
    Prop where
  hop : hop < maxEgressRedirects
  isHttp : nextUrl.isHttp
  parse : platform.urls.parse next.url none = some nextUrl
  pending : next.pendingRedirect = some ⟨response.status, url, nextUrl⟩
  headers : ∀ header ∈ next.headers, header ∈ chain.headers
  credentials : nextUrl.origin ≠ url.origin → Free crossOriginCredentialHeaders next.headers
  body : (chain.method ≠ .of "GET" ∧ next.method = .of "GET" ∧ next.body = none ∧ Free bodyHeaders next.headers) ∨
    (next.method = chain.method ∧ next.body = chain.body)

theorem isDowngrade_ne {status : Nat} {method : Text} (h : isDowngrade status method = true) : method ≠ .of "GET" := by
  rintro rfl
  rw [isDowngrade, Bool.or_eq_true, Bool.and_eq_true, Bool.and_eq_true, Bool.and_eq_true] at h
  rcases h with ⟨-, h⟩ | ⟨⟨-, h⟩, -⟩
  · exact absurd h (by decide)
  · exact absurd h (by decide)

theorem follow_eq_inr (h : follow platform mode hop chain url response = .inr next) :
    ∃ nextUrl, Followed platform hop chain url response next nextUrl := by
  rw [follow] at h
  split at h
  · cases h
  split at h
  · cases h
  · cases h
  split at h
  · cases h
  · cases h
  split at h
  · cases h
  rename_i hhop
  split at h
  · cases h
  rename_i nextUrl hnext
  split at h
  · cases h
  rename_i hhttp
  have hhttp : nextUrl.isHttp = true := by simpa using hhttp
  have hparse := platform.urls.reparse _ _ _ hnext hhttp
  -- the headers after a redirect to another origin, and after a downgrade
  dsimp only at h
  generalize hkept : (if nextUrl.origin ≠ url.origin then crossOriginCredentialHeaders.foldl Headers.delete chain.headers
    else chain.headers) = kept at h
  have hkeptSub : ∀ header ∈ kept, header ∈ chain.headers := by
    intro header hmem
    rw [← hkept] at hmem
    split at hmem
    · exact ((mem_foldl_delete _ _ header).mp hmem).1
    · exact hmem
  have hkeptFree (hother : nextUrl.origin ≠ url.origin) : Free crossOriginCredentialHeaders kept := by
    rw [← hkept, if_pos hother]
    exact free_foldl_delete _ _
  by_cases hdown : isDowngrade response.status chain.method = true
  · rw [if_pos hdown, if_pos hdown] at h
    cases h
    have hsub : ∀ header ∈ bodyHeaders.foldl Headers.delete kept, header ∈ kept := fun header hmem =>
      ((mem_foldl_delete _ _ header).mp hmem).1
    exact ⟨nextUrl, Nat.lt_of_not_le hhop, hhttp, hparse, rfl, fun header hmem => hkeptSub header (hsub header hmem),
      fun hother => (hkeptFree hother).mono hsub, .inl ⟨isDowngrade_ne hdown, rfl, rfl, free_foldl_delete _ _⟩⟩
  · rw [if_neg hdown, if_neg hdown] at h
    split at h
    · cases h
      exact ⟨nextUrl, Nat.lt_of_not_le hhop, hhttp, hparse, rfl, hkeptSub, hkeptFree, .inr ⟨rfl, rfl⟩⟩
    · cases h

/-- Events that send nothing. -/
def Quiet (events : List Event) : Prop := sentRequests events = [] ∧ answers events = [] ∧ redirects events = []

theorem Quiet.append {events events' : List Event} (h : Quiet events) (h' : Quiet events') : Quiet (events ++ events') := by
  simp only [Quiet, sentRequests, answers, redirects, List.filterMap_append] at h h' ⊢
  rw [h.1, h.2.1, h.2.2, h'.1, h'.2.1, h'.2.2]
  exact ⟨rfl, rfl, rfl⟩

theorem authorize_spec {authorized : List Event} (h : authorize deps hop url = .ok authorized) :
    Quiet authorized ∧ ∀ authorizeUrl, deps.authorizeUrl = some authorizeUrl →
      authorizeUrl hop url = .ok () ∧ .authorized hop url ∈ authorized := by
  rw [authorize] at h
  split at h
  · rename_i hnone
    cases h
    exact ⟨⟨rfl, rfl, rfl⟩, fun authorizeUrl hsome => absurd (hnone.symm.trans hsome) nofun⟩
  · rename_i authorizeUrl hsome
    cases hanswer : authorizeUrl hop url with
    | error error =>
      rw [hanswer] at h
      cases h
    | ok _ =>
      rw [hanswer] at h
      cases h
      refine ⟨⟨rfl, rfl, rfl⟩, fun other hother => ?_⟩
      obtain rfl := Option.some.inj (hsome.symm.trans hother)
      exact ⟨hanswer, List.mem_singleton.mpr rfl⟩

theorem connect_spec {admitted : List Event} {text : Text} (hurl : platform.urls.parse text none = some url)
    (h : connect platform deps hop url = .ok (admitted, transport)) :
    Quiet admitted ∧ (url.isHttp → deps.httpBroker = none → deps.socksProxy = false → ∃ addresses,
      resolveWorkerHostEgressAddresses platform.cases platform.env (stripIpv6Brackets url.hostname) (deps.options hop)
        deps.allowedResolvedAddressesForTests = .ok addresses ∧ .admitted hop url addresses ∈ admitted ∧
        (transport = .pinned addresses ∨ transport = .tunnel addresses)) := by
  by_cases hhttp : url.isHttp = true
  · have hhost : getUrlHostname url = some (stripIpv6Brackets url.hostname) := by rw [getUrlHostname, hhttp]; rfl
    have hnonempty := platform.urls.hosted _ _ _ hurl hhttp
    rw [connect, hhost] at h
    simp only [hhttp, not_true_eq_false, if_false] at h
    cases hbroker : deps.httpBroker with
    | some broker =>
      rw [hbroker] at h
      cases h
      exact ⟨⟨rfl, rfl, rfl⟩, fun _ hnone => absurd hnone nofun⟩
    | none =>
      rw [hbroker] at h
      simp only [hnonempty, if_false] at h
      by_cases hsocks : deps.socksProxy = true
      · rw [if_pos hsocks] at h
        cases h
        exact ⟨⟨rfl, rfl, rfl⟩, fun _ _ hfalse => absurd (hsocks.symm.trans hfalse) nofun⟩
      · rw [if_neg hsocks] at h
        split at h
        · cases h
        · rename_i addresses hresolve
          cases h
          refine ⟨⟨rfl, rfl, rfl⟩, fun _ _ _ => ⟨addresses, hresolve, List.mem_singleton.mpr rfl, ?_⟩⟩
          split
          · exact .inl rfl
          · exact .inr rfl
  · refine ⟨?_, fun hyes => absurd hyes hhttp⟩
    rw [connect] at h
    split at h
    · cases h
      exact ⟨rfl, rfl, rfl⟩
    · rw [if_pos hhttp] at h
      cases h
      exact ⟨rfl, rfl, rfl⟩

theorem notify_spec (deps : GuardedEgressFetchDeps) (pendingRedirect : Option Redirect) :
    sentRequests (notify deps pendingRedirect).1 = [] ∧ answers (notify deps pendingRedirect).1 = [] ∧
      (deps.onRedirect.isSome → redirects (notify deps pendingRedirect).1 = pendingRedirect.toList) := by
  cases pendingRedirect with
  | none => exact ⟨rfl, rfl, fun _ => rfl⟩
  | some redirect =>
    cases hobserver : deps.onRedirect with
    | none =>
      simp only [notify, hobserver]
      exact ⟨rfl, rfl, nofun⟩
    | some onRedirect =>
      simp only [notify, hobserver]
      exact ⟨rfl, rfl, fun _ => rfl⟩

/-- The hops of a call from where it has come to. -/
inductive Trail (platform : Platform) (deps : GuardedEgressFetchDeps) : Nat → Chain → List Event → Prop
  | unsent {hop : Nat} {chain : Chain} {checks : List Event} (quiet : Quiet checks) : Trail platform deps hop chain checks
  | failed {hop : Nat} {chain : Chain} {url : Url} {transport : Transport} {checks : List Event} (quiet : Quiet checks) (parse : platform.urls.parse chain.url none = some url)
      (checked : Checked platform deps hop url transport checks) :
      Trail platform deps hop chain (checks ++ [.sent hop (requestOf chain url transport)])
  | ended {hop : Nat} {chain : Chain} {url : Url} {transport : Transport} {checks : List Event} (quiet : Quiet checks) (parse : platform.urls.parse chain.url none = some url)
      (checked : Checked platform deps hop url transport checks) (response : Response) :
      Trail platform deps hop chain
        (checks ++ .sent hop (requestOf chain url transport) :: .answered url response :: (notify deps chain.pendingRedirect).1)
  | followed {hop : Nat} {chain next : Chain} {url nextUrl : Url} {transport : Transport} {checks rest : List Event} (quiet : Quiet checks)
      (parse : platform.urls.parse chain.url none = some url) (checked : Checked platform deps hop url transport checks)
      (response : Response) (followed : Followed platform hop chain url response next nextUrl)
      (trail : Trail platform deps (hop + 1) next rest) :
      Trail platform deps hop chain
        (checks ++ .sent hop (requestOf chain url transport) :: .answered url response ::
          ((notify deps chain.pendingRedirect).1 ++ rest))

theorem turn_trail {events : List Event} {result : Outcome ⊕ Chain} (h : turn platform deps network mode hop chain = (events, result)) :
    ((∃ outcome, result = .inl outcome) ∧ Trail platform deps hop chain events) ∨
      ∃ next, result = .inr next ∧ hop < maxEgressRedirects ∧
        ∀ rest, Trail platform deps (hop + 1) next rest → Trail platform deps hop chain (events ++ rest) := by
  cases hurl : platform.urls.parse chain.url none with
  | none =>
    simp only [turn, hurl] at h
    cases h
    exact .inl ⟨⟨_, rfl⟩, .unsent ⟨rfl, rfl, rfl⟩⟩
  | some url =>
    simp only [turn, hurl] at h
    split at h
    · cases h
      exact .inl ⟨⟨_, rfl⟩, .unsent ⟨rfl, rfl, rfl⟩⟩
    rename_i authorized hauthorize
    obtain ⟨hquiet, hauthorized⟩ := authorize_spec hauthorize
    split at h
    · cases h
      exact .inl ⟨⟨_, rfl⟩, .unsent hquiet⟩
    rename_i admitted transport hconnect
    obtain ⟨hquiet', hadmitted⟩ := connect_spec hurl hconnect
    have hchecks := hquiet.append hquiet'
    have hchecked : Checked platform deps hop url transport (authorized ++ admitted) := by
      constructor
      · intro authorizeUrl hsome
        exact ⟨(hauthorized authorizeUrl hsome).1, List.mem_append_left _ (hauthorized authorizeUrl hsome).2⟩
      · intro hhttp hbroker hsocks
        obtain ⟨addresses, hresolve, hmem, htransport⟩ := hadmitted hhttp hbroker hsocks
        exact ⟨addresses, hresolve, List.mem_append_right _ hmem, htransport⟩
    split at h
    · cases h
      exact .inl ⟨⟨_, rfl⟩, .unsent hchecks⟩
    · cases h
      exact .inl ⟨⟨_, rfl⟩, .failed hchecks hurl hchecked⟩
    · rename_i response _
      split at h
      · cases h
        exact .inl ⟨⟨_, rfl⟩, .ended hchecks hurl hchecked response⟩
      · cases hfollow : follow platform mode hop chain url response with
        | inl outcome =>
          rw [hfollow] at h
          cases h
          exact .inl ⟨⟨_, rfl⟩, .ended hchecks hurl hchecked response⟩
        | inr next =>
          rw [hfollow] at h
          cases h
          obtain ⟨nextUrl, hfollowed⟩ := follow_eq_inr hfollow
          refine .inr ⟨next, rfl, hfollowed.hop, fun rest htrail => ?_⟩
          rw [List.append_assoc]
          exact .followed hchecks hurl hchecked response hfollowed htrail

/-! ## All hops -/

theorem hops_trail (fuel hop : Nat) (chain : Chain) : Trail platform deps hop chain (hops platform deps network mode fuel hop chain).1 := by
  induction fuel generalizing hop chain with
  | zero => exact .unsent ⟨rfl, rfl, rfl⟩
  | succ fuel ih =>
    rcases hturn : turn platform deps network mode hop chain with ⟨events, result⟩
    rw [hops, hturn]
    rcases turn_trail hturn with ⟨⟨outcome, rfl⟩, htrail⟩ | ⟨next, rfl, -, htrail⟩
    · exact htrail
    · exact htrail _ (ih (hop + 1) next)

theorem hops_isSome {fuel : Nat} (hfuel : maxEgressRedirects + 1 ≤ hop + fuel) (hhop : hop ≤ maxEgressRedirects) :
    (hops platform deps network mode fuel hop chain).2.isSome := by
  induction fuel generalizing hop chain with
  | zero => omega
  | succ fuel ih =>
    rcases hturn : turn platform deps network mode hop chain with ⟨events, result⟩
    rw [hops, hturn]
    rcases turn_trail hturn with ⟨⟨outcome, rfl⟩, -⟩ | ⟨next, rfl, hlt, -⟩
    · rfl
    · exact ih (by omega) hlt

/-! ## What is seen of a hop -/

variable {checks notified rest : List Event} {request : SentRequest}

theorem sentRequests_append (log log' : List Event) : sentRequests (log ++ log') = sentRequests log ++ sentRequests log' :=
  List.filterMap_append

theorem answers_append (log log' : List Event) : answers (log ++ log') = answers log ++ answers log' := List.filterMap_append

theorem redirects_append (log log' : List Event) : redirects (log ++ log') = redirects log ++ redirects log' :=
  List.filterMap_append

theorem sentRequests_ne_nil (before after : List Event) : sentRequests (before ++ .sent hop request :: after) ≠ [] := by
  rw [sentRequests_append]
  exact List.append_ne_nil_of_right_ne_nil _ (List.cons_ne_nil _ _)

theorem sentRequests_hop (hquiet : Quiet checks) (deps : GuardedEgressFetchDeps) (pending : Option Redirect) :
    sentRequests (checks ++ .sent hop request :: .answered url response :: ((notify deps pending).1 ++ rest)) =
      request :: sentRequests rest := by
  rw [sentRequests_append, hquiet.1, List.nil_append]
  refine congrArg (request :: ·) ?_
  have happend := sentRequests_append (notify deps pending).1 rest
  rw [(notify_spec deps pending).1, List.nil_append] at happend
  exact happend

theorem answers_hop (hquiet : Quiet checks) (deps : GuardedEgressFetchDeps) (pending : Option Redirect) :
    answers (checks ++ .sent hop request :: .answered url response :: ((notify deps pending).1 ++ rest)) =
      (url, response) :: answers rest := by
  rw [answers_append, hquiet.2.1, List.nil_append]
  refine congrArg ((url, response) :: ·) ?_
  have hnotified := answers_append (notify deps pending).1 rest
  rw [(notify_spec deps pending).2.1, List.nil_append] at hnotified
  exact hnotified

theorem redirects_hop (hquiet : Quiet checks) (hobserver : deps.onRedirect.isSome) (pending : Option Redirect) :
    redirects (checks ++ .sent hop request :: .answered url response :: ((notify deps pending).1 ++ rest)) =
      pending.toList ++ redirects rest := by
  rw [redirects_append, hquiet.2.2, List.nil_append, ← (notify_spec deps pending).2.2 hobserver, ← redirects_append]
  rfl

theorem split_sent {quiet before after : List Event} (hquiet : sentRequests quiet = [])
    (h : quiet ++ rest = before ++ .sent hop request :: after) :
    ∃ before', before = quiet ++ before' ∧ rest = before' ++ .sent hop request :: after := by
  rcases List.append_eq_append_iff.mp h with ⟨before', rfl, hrest⟩ | ⟨quiet', rfl, hsent⟩
  · exact ⟨before', rfl, hrest⟩
  · cases quiet' with
    | nil => exact ⟨[], (List.append_nil _).symm ▸ (List.append_nil _).symm, hsent.symm⟩
    | cons event quiet' =>
      obtain ⟨rfl, -⟩ := List.cons.inj hsent
      rw [sentRequests_append] at hquiet
      exact absurd (List.append_eq_nil_iff.mp hquiet).2 (List.cons_ne_nil _ _)

theorem Checked.mono {events events' : List Event} (h : Checked platform deps hop url transport events)
    (hsub : ∀ event ∈ events, event ∈ events') : Checked platform deps hop url transport events' := by
  constructor
  · intro authorizeUrl hsome
    exact ⟨(h.authorized authorizeUrl hsome).1, hsub _ (h.authorized authorizeUrl hsome).2⟩
  · intro hhttp hbroker hsocks
    obtain ⟨addresses, hresolve, hmem, htransport⟩ := h.admitted hhttp hbroker hsocks
    exact ⟨addresses, hresolve, hsub _ hmem, htransport⟩

/-! ## The requests of a call -/

inductive Requests (platform : Platform) : Nat → Chain → List SentRequest → Prop
  | nil {hop : Nat} {chain : Chain} : Requests platform hop chain []
  | last {hop : Nat} {chain : Chain} {url : Url} (parse : platform.urls.parse chain.url none = some url) (transport : Transport) :
      Requests platform hop chain [requestOf chain url transport]
  | next {hop : Nat} {chain next : Chain} {url nextUrl : Url} {requests : List SentRequest}
      (parse : platform.urls.parse chain.url none = some url) (transport : Transport) (response : Response)
      (followed : Followed platform hop chain url response next nextUrl) (rest : Requests platform (hop + 1) next requests) :
      Requests platform hop chain (requestOf chain url transport :: requests)

variable {log : List Event}

theorem Trail.requests (h : Trail platform deps hop chain log) :
    Requests platform hop chain (sentRequests log) := by
  induction h with
  | unsent hquiet =>
    rw [hquiet.1]
    exact .nil
  | @failed _ _ _ transport _ hquiet hparse _ =>
    rw [sentRequests_append, hquiet.1]
    exact .last hparse transport
  | @ended _ chain _ transport _ hquiet hparse _ response =>
    rw [← List.append_nil (notify deps chain.pendingRedirect).1, sentRequests_hop hquiet]
    exact .last hparse transport
  | @followed _ _ _ _ _ transport _ _ hquiet hparse _ response hfollowed _ ih =>
    rw [sentRequests_hop hquiet]
    exact .next hparse transport response hfollowed ih

namespace Requests

variable {requests before between after : List SentRequest} {first other : SentRequest}

theorem bounded (h : Requests platform hop chain requests) (hhop : hop ≤ maxEgressRedirects) :
    requests.length + hop ≤ maxEgressRedirects + 1 := by
  induction h with
  | nil => exact Nat.zero_add _ ▸ Nat.le_succ_of_le hhop
  | last _ _ => exact Nat.add_comm .. ▸ Nat.succ_le_succ hhop
  | next _ _ _ hfollowed _ ih =>
    have := ih hfollowed.hop
    rw [List.length_cons]
    omega

theorem head_method (h : Requests platform hop chain (first :: after)) : first.method = chain.method := by
  cases h <;> rfl

/-! ### Credentials -/

theorem broker_notMem_credentials : brokerAuthHeader ∉ crossOriginCredentialHeaders ∧
    brokerTargetHeader ∉ crossOriginCredentialHeaders := by
  simp only [brokerAuthHeader, brokerTargetHeader, crossOriginCredentialHeaders]
  repeat rw [Text.of_ofList]
  decide

theorem broker_notMem_body : brokerAuthHeader ∉ bodyHeaders ∧ brokerTargetHeader ∉ bodyHeaders := by
  simp only [brokerAuthHeader, brokerTargetHeader, bodyHeaders]
  repeat rw [Text.of_ofList]
  decide

theorem free (h : Requests platform hop chain requests) (hfree : Free crossOriginCredentialHeaders chain.headers) :
    ∀ request ∈ requests, Free crossOriginCredentialHeaders request.headers := by
  have hrequest {chain : Chain} (hfree : Free crossOriginCredentialHeaders chain.headers) (url : Url) (transport : Transport) :
      Free crossOriginCredentialHeaders (requestOf chain url transport).headers :=
    hfree.requestOf broker_notMem_credentials.1 broker_notMem_credentials.2 url transport
  induction h with
  | nil => exact nofun
  | last _ transport =>
    intro request hmem
    obtain rfl := List.mem_singleton.mp hmem
    exact hrequest hfree _ transport
  | next _ transport _ hfollowed _ ih =>
    intro request hmem
    rcases List.mem_cons.mp hmem with rfl | hmem
    · exact hrequest hfree _ transport
    · exact ih (hfree.mono hfollowed.headers) request hmem

theorem leaves_origin (h : Requests platform hop chain requests) (hurl : platform.urls.parse chain.url none = some url)
    (hsplit : requests = before ++ other :: after) (hother : other.parsedUrl.origin ≠ url.origin) :
    ∀ request ∈ other :: after, Free crossOriginCredentialHeaders request.headers := by
  induction h generalizing before url with
  | nil => exact absurd hsplit.symm (List.append_ne_nil_of_right_ne_nil _ (List.cons_ne_nil _ _))
  | last hparse _ =>
    obtain rfl := Option.some.inj (hparse.symm.trans hurl)
    rcases List.append_eq_singleton_iff.mp hsplit.symm with ⟨-, hhead⟩ | ⟨-, hnil⟩
    · obtain ⟨rfl, -⟩ := List.cons.inj hhead
      exact absurd rfl hother
    · cases hnil
  | @next _ _ _ here nextUrl _ hparse _ _ hfollowed hrest ih =>
    obtain rfl := Option.some.inj (hparse.symm.trans hurl)
    cases before with
    | nil =>
      obtain ⟨rfl, -⟩ := List.cons.inj hsplit
      exact absurd rfl hother
    | cons head before =>
      obtain ⟨-, rfl⟩ := List.cons.inj hsplit
      by_cases hsame : nextUrl.origin = here.origin
      · exact ih hfollowed.parse rfl (hsame ▸ hother)
      · exact fun request hmem => hrest.free (hfollowed.credentials hsame) request (List.mem_append_right _ hmem)

theorem credentials (h : Requests platform hop chain requests) (hsplit : requests = before ++ first :: (between ++ other :: after))
    (hother : other.parsedUrl.origin ≠ first.parsedUrl.origin) :
    ∀ request ∈ other :: after, Free crossOriginCredentialHeaders request.headers := by
  induction h generalizing before with
  | nil => exact absurd hsplit.symm (List.append_ne_nil_of_right_ne_nil _ (List.cons_ne_nil _ _))
  | last _ _ =>
    rcases List.append_eq_singleton_iff.mp hsplit.symm with ⟨-, hhead⟩ | ⟨-, hnil⟩
    · exact absurd (List.cons.inj hhead).2 (List.append_ne_nil_of_right_ne_nil _ (List.cons_ne_nil _ _))
    · cases hnil
  | next hparse transport response hfollowed hrest ih =>
    cases before with
    | nil =>
      have hall := Requests.next hparse transport response hfollowed hrest
      obtain ⟨rfl, -⟩ := List.cons.inj hsplit
      rw [hsplit] at hall
      exact hall.leaves_origin hparse (List.cons_append ..).symm hother
    | cons head before =>
      obtain ⟨-, rfl⟩ := List.cons.inj hsplit
      exact ih rfl

/-! ### Bodies -/

theorem bare (h : Requests platform hop chain requests) (hmethod : chain.method = .of "GET") (hbody : chain.body = none)
    (hfree : Free bodyHeaders chain.headers) : ∀ request ∈ requests, request.body = none ∧ Free bodyHeaders request.headers := by
  have hrequest {chain : Chain} (hbody : chain.body = none) (hfree : Free bodyHeaders chain.headers) (url : Url)
      (transport : Transport) :
      (requestOf chain url transport).body = none ∧ Free bodyHeaders (requestOf chain url transport).headers :=
    ⟨hbody, hfree.requestOf broker_notMem_body.1 broker_notMem_body.2 url transport⟩
  induction h with
  | nil => exact nofun
  | last _ transport =>
    intro request hmem
    obtain rfl := List.mem_singleton.mp hmem
    exact hrequest hbody hfree _ transport
  | next _ transport _ hfollowed _ ih =>
    intro request hmem
    rcases List.mem_cons.mp hmem with rfl | hmem
    · exact hrequest hbody hfree _ transport
    · rcases hfollowed.body with ⟨hget, -⟩ | ⟨hmethod', hbody'⟩
      · exact absurd hmethod hget
      · exact ih (hmethod'.trans hmethod) (hbody'.trans hbody) (hfree.mono hfollowed.headers) request hmem

theorem not_turnedToGet_singleton (request : SentRequest) : ¬ TurnedToGet [request] := by
  rintro ⟨before, source, target, after, hsplit, -⟩
  have hlength := congrArg List.length hsplit
  simp only [List.length_append, List.length_cons, List.length_nil] at hlength
  omega

theorem turnedToGet_cons_cons (source target : SentRequest) :
    TurnedToGet (source :: target :: after) ↔
      (source.method ≠ .of "GET" ∧ target.method = .of "GET") ∨ TurnedToGet (target :: after) := by
  constructor
  · rintro ⟨before, source', target', after', hsplit, hmethods⟩
    cases before with
    | nil =>
      cases hsplit
      exact .inl hmethods
    | cons head before => exact .inr ⟨before, source', target', after', (List.cons.inj hsplit).2, hmethods⟩
  · rintro (hmethods | ⟨before, source', target', after', hsplit, hmethods⟩)
    · exact ⟨[], source, target, after, rfl, hmethods⟩
    · exact ⟨source :: before, source', target', after', congrArg (source :: ·) hsplit, hmethods⟩

theorem body (h : Requests platform hop chain requests) {request : SentRequest} (hsplit : requests = before ++ request :: after) :
    (TurnedToGet (before ++ [request]) → request.body = none ∧ Free bodyHeaders request.headers) ∧
      (¬ TurnedToGet (before ++ [request]) → request.body = chain.body) := by
  induction h generalizing before with
  | nil => exact absurd hsplit.symm (List.append_ne_nil_of_right_ne_nil _ (List.cons_ne_nil _ _))
  | last _ _ =>
    rcases List.append_eq_singleton_iff.mp hsplit.symm with ⟨rfl, hhead⟩ | ⟨-, hnil⟩
    · obtain ⟨rfl, -⟩ := List.cons.inj hhead
      exact ⟨fun hturned => absurd hturned (not_turnedToGet_singleton _), fun _ => rfl⟩
    · cases hnil
  | @next _ chain next _ _ _ hparse transport response hfollowed hrest ih =>
    cases before with
    | nil =>
      obtain ⟨rfl, -⟩ := List.cons.inj hsplit
      exact ⟨fun hturned => absurd hturned (not_turnedToGet_singleton _), fun _ => rfl⟩
    | cons head before =>
      obtain ⟨rfl, rfl⟩ := List.cons.inj hsplit
      obtain ⟨second, rest, hsecond⟩ : ∃ second rest, before ++ [request] = second :: rest :=
        List.exists_cons_of_ne_nil (List.append_ne_nil_of_right_ne_nil _ (List.cons_ne_nil _ _))
      have hmethod : second.method = next.method := by
        have hall : before ++ request :: after = second :: (rest ++ after) := by
          rw [← List.cons_append, ← hsecond, List.append_assoc]
          rfl
        have hnext : Requests platform _ next (before ++ request :: after) := hrest
        rw [hall] at hnext
        exact hnext.head_method
      rw [List.cons_append, hsecond, turnedToGet_cons_cons]
      rcases hfollowed.body with ⟨hsource, hnext, hbody, hfree⟩ | ⟨hnext, hbody⟩
      · have hbare := hrest.bare hnext hbody hfree request (List.mem_append_right _ List.mem_cons_self)
        exact ⟨fun _ => hbare, fun hnot => absurd (.inl ⟨hsource, hmethod.trans hnext⟩) hnot⟩
      · obtain ⟨hturned, hkept⟩ := ih rfl
        rw [hsecond] at hturned hkept
        constructor
        · rintro (⟨hsource, htarget⟩ | hlater)
          · exact absurd (hnext.symm.trans (hmethod.symm.trans htarget)) hsource
          · exact hturned hlater
        · intro hnot
          exact (hkept fun hlater => hnot (.inr hlater)).trans hbody

end Requests

/-! ## The checks of a call -/

theorem Trail.checked {before after : List Event} {sentHop : Nat} (h : Trail platform deps hop chain log)
    (hsplit : log = before ++ .sent sentHop request :: after) :
    sentHop = hop + (sentRequests before).length ∧ platform.urls.parse request.url none = some request.parsedUrl ∧
      (sentHop = hop → request.url = chain.url) ∧ (hop < sentHop → request.parsedUrl.isHttp) ∧
      Checked platform deps sentHop request.parsedUrl request.transport before := by
  induction h generalizing before with
  | unsent hquiet => exact absurd (hsplit ▸ hquiet.1) (sentRequests_ne_nil _ _)
  | failed hquiet hparse hchecked =>
    obtain ⟨before', rfl, hsent⟩ := split_sent hquiet.1 hsplit
    rcases List.append_eq_singleton_iff.mp hsent.symm with ⟨rfl, hhead⟩ | ⟨-, hnil⟩
    · cases hhead
      rw [List.append_nil, hquiet.1]
      exact ⟨rfl, hparse, fun _ => rfl, fun hlt => absurd hlt (Nat.lt_irrefl _), hchecked⟩
    · cases hnil
  | @ended _ chain here _ _ hquiet hparse hchecked response =>
    obtain ⟨before', rfl, hsent⟩ := split_sent hquiet.1 hsplit
    cases before' with
    | nil =>
      cases hsent
      rw [List.append_nil, hquiet.1]
      exact ⟨rfl, hparse, fun _ => rfl, fun hlt => absurd hlt (Nat.lt_irrefl _), hchecked⟩
    | cons event before' =>
      have hnotified : sentRequests (.answered here response :: (notify deps chain.pendingRedirect).1) = [] :=
        (notify_spec deps chain.pendingRedirect).1
      exact absurd ((List.cons.inj hsent).2 ▸ hnotified) (sentRequests_ne_nil _ _)
  | @followed hop chain next here nextUrl transport _ rest hquiet hparse hchecked response hfollowed _ ih =>
    obtain ⟨before', rfl, hsent⟩ := split_sent hquiet.1 hsplit
    cases before' with
    | nil =>
      cases hsent
      rw [List.append_nil, hquiet.1]
      exact ⟨rfl, hparse, fun _ => rfl, fun hlt => absurd hlt (Nat.lt_irrefl _), hchecked⟩
    | cons event before' =>
      obtain ⟨rfl, htail⟩ := List.cons.inj hsent
      have hnotified : sentRequests (.answered here response :: (notify deps chain.pendingRedirect).1) = [] :=
        (notify_spec deps chain.pendingRedirect).1
      rw [← List.cons_append] at htail
      obtain ⟨before'', rfl, hrest⟩ := split_sent hnotified htail
      obtain ⟨hhop, hparsed, hfirst, hhttp, hchecked'⟩ := ih hrest
      rw [List.cons_append, sentRequests_hop hquiet, List.length_cons]
      refine ⟨by omega, hparsed, fun heq => by omega, fun _ => ?_, hchecked'.mono fun event hmem => ?_⟩
      · -- the request of the very next hop, or of a later one
        by_cases hnext : sentHop = hop + 1
        · rw [hfirst hnext, hfollowed.parse] at hparsed
          obtain rfl := Option.some.inj hparsed
          exact hfollowed.isHttp
        · exact hhttp (by omega)
      · exact List.mem_append_right _ (List.mem_cons_of_mem _ (List.mem_cons_of_mem _ (List.mem_append_right _ hmem)))

/-! ## The redirects that are told -/

theorem Trail.head_answer {rest : List (Url × Response)} (h : Trail platform deps hop chain log)
    (hanswers : answers log = (url, response) :: rest) : platform.urls.parse chain.url none = some url := by
  cases h with
  | unsent hquiet =>
    rw [hquiet.2.1] at hanswers
    cases hanswers
  | failed hquiet _ _ =>
    rw [answers_append, hquiet.2.1] at hanswers
    cases hanswers
  | ended hquiet hparse _ response =>
    rw [← List.append_nil (notify deps chain.pendingRedirect).1, answers_hop hquiet] at hanswers
    cases hanswers
    exact hparse
  | followed hquiet hparse _ response _ _ =>
    rw [answers_hop hquiet] at hanswers
    cases hanswers
    exact hparse

theorem Trail.observed (h : Trail platform deps hop chain log) (hobserver : deps.onRedirect.isSome) :
    redirects log = (if answers log = [] then [] else chain.pendingRedirect.toList) ++ legs (answers log) := by
  induction h with
  | unsent hquiet =>
    rw [hquiet.2.1, hquiet.2.2]
    rfl
  | failed hquiet _ _ =>
    rw [redirects_append, answers_append, hquiet.2.1, hquiet.2.2]
    rfl
  | @ended _ chain _ _ _ hquiet _ _ response =>
    rw [← List.append_nil (notify deps chain.pendingRedirect).1, answers_hop hquiet, redirects_hop hquiet hobserver]
    rfl
  | @followed _ chain next url nextUrl _ _ rest hquiet _ _ response hfollowed htrail ih =>
    rw [answers_hop hquiet, redirects_hop hquiet hobserver, ih, hfollowed.pending, if_neg (List.cons_ne_nil _ _)]
    refine congrArg (chain.pendingRedirect.toList ++ ·) ?_
    cases hanswers : answers rest with
    | nil => rfl
    | cons answer answers =>
      have hparse := htrail.head_answer hanswers
      obtain rfl : nextUrl = answer.1 := Option.some.inj (hfollowed.parse.symm.trans hparse)
      rfl

/-! ## The call -/

theorem initialBody_bytes (input : RequestInfo) (init : RequestInit) :
    (initialBody input init).map Body.bytes = originalBytes input init := by
  have hbytes (mayFollow : Bool) (body : Body) : (materialize mayFollow body).bytes = body.bytes := by
    rw [materialize]
    split <;> rfl
  cases hinit : init.body with
  | some body => simp [initialBody, originalBytes, hinit, hbytes]
  | none =>
    cases input with
    | url _ => simp [initialBody, originalBytes, hinit]
    | request request => cases hbody : request.body <;> simp [initialBody, originalBytes, hinit, hbody, hbytes]

/-- Whatever the network answers, the call ends, and its hops are bounded, checked before they are sent, free
of credentials away from the first origin, true to their body and each told once. -/
theorem guardedEgressFetch_guarded (platform : Platform) (deps : GuardedEgressFetchDeps) (network : Nat → Answer)
    (input : RequestInfo) (init : RequestInit) :
    (guardedEgressFetch platform deps network input init).2.isSome ∧
      Guarded platform deps input init (guardedEgressFetch platform deps network input init).1 := by
  have htrail : Trail platform deps 0 (initialChain platform input init) (guardedEgressFetch platform deps network input init).1 :=
    hops_trail _ _ _
  refine ⟨hops_isSome (Nat.le_add_left _ _) (Nat.zero_le _), ?_⟩
  constructor
  · exact htrail.requests.bounded (Nat.zero_le _)
  · intro before hop request after hsplit
    obtain ⟨hhop, hparse, -, hhttp, hchecked⟩ := htrail.checked hsplit
    exact ⟨hhop.trans (Nat.zero_add _), hparse, hhttp, hchecked⟩
  · intro before first between other after hsplit hother
    exact htrail.requests.credentials hsplit hother
  · intro before request after hsplit
    obtain ⟨hturned, hkept⟩ := htrail.requests.body hsplit
    refine ⟨hturned, fun hnot => ?_⟩
    rw [hkept hnot]
    exact initialBody_bytes input init
  · intro hobserver
    rw [htrail.observed hobserver]
    split <;> rfl

/-! ## A proxy -/

/-- Reads hosts and nothing behind them. -/
def plainUrls : UrlParser where
  parse text _ :=
    let host := (text.drop 7).dropLast
    if text.startsWith "http://" && text.endsWith "/" && stripIpv6Brackets host ≠ [] then
      some ⟨text, .of "http:", host, [], text.dropLast⟩
    else none
  reparse text base url h _ := by
    dsimp only at h
    split at h
    · rename_i hcondition
      cases h
      exact if_pos hcondition
    · cases h
  hosted text base url h _ := by
    dsimp only at h
    split at h
    · rename_i hcondition
      cases h
      rw [Bool.and_eq_true] at hcondition
      exact of_decide_eq_true hcondition.2
    · cases h

def proxied : GuardedEgressFetchDeps where
  authorizeUrl := none
  onRedirect := none
  options _ := ⟨none, none, fun _ => .ok []⟩
  httpBroker := none
  socksProxy := true
  pinnedFetch := false
  allowedResolvedAddressesForTests := []

def metadataUrl : Url := ⟨.of "http://169.254.169.254/", .of "http:", .of "169.254.169.254", [], .of "http://169.254.169.254"⟩

def proxiedLog : List Event :=
  (guardedEgressFetch ⟨plainUrls, latinCases, id, none⟩ proxied
    (fun hop => .response (if hop = 0 then ⟨302, some (.of "http://169.254.169.254/")⟩ else ⟨200, none⟩))
    (.url (.of "http://a/")) ⟨none, none, none, none⟩).1

/-- Behind a proxy the guard checks no address. -/
theorem proxied_unchecked :
    .sent 1 ⟨.socksProxy, metadataUrl.href, metadataUrl, .of "GET", [], none⟩ ∈ proxiedLog ∧
      ¬ ∃ url addresses, .admitted 1 url addresses ∈ proxiedLog := by
  have hlog : proxiedLog =
      [.sent 0 ⟨.socksProxy, .of "http://a/", ⟨.of "http://a/", .of "http:", .of "a", [], .of "http://a"⟩, .of "GET", [], none⟩,
        .answered ⟨.of "http://a/", .of "http:", .of "a", [], .of "http://a"⟩ ⟨302, some (.of "http://169.254.169.254/")⟩,
        .sent 1 ⟨.socksProxy, metadataUrl.href, metadataUrl, .of "GET", [], none⟩, .answered metadataUrl ⟨200, none⟩] := by
    decide
  rw [hlog]
  constructor
  · exact .tail _ (.tail _ (.head _))
  · rintro ⟨url, addresses, hmem⟩
    simp at hmem

end Veryfront.Security.Egress
