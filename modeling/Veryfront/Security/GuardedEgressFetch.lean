import Veryfront.Security.WorkerEgressGuard

/-!
# Guarded fetch of the workers

Redirects are followed by the guard, one request a hop, and every hop is checked before its request is sent.
-/

namespace Veryfront.Security.Egress

/-! ## Addresses -/

structure Url where
  href : Text
  protocol : Text
  hostname : Text
  port : Text
  origin : Text
deriving DecidableEq

def Url.isHttp (url : Url) : Bool := url.protocol = .of "http:" || url.protocol = .of "https:"

/-- The parser of the platform. What it writes of an address of the web it reads as the same address, and such an address has
a host. -/
structure UrlParser where
  parse : Text → Option Text → Option Url
  reparse : ∀ text base url, parse text base = some url → url.isHttp → parse url.href none = some url
  hosted : ∀ text base url, parse text base = some url → url.isHttp → stripIpv6Brackets url.hostname ≠ []

/-- `none` but for the web and its sockets. -/
def getUrlHostname (url : Url) : Option Text :=
  if url.isHttp || url.protocol = .of "ws:" || url.protocol = .of "wss:" then some (stripIpv6Brackets url.hostname) else none

/-- What the guard takes from the platform. `env` lists the internal names of the host. -/
structure Platform where
  urls : UrlParser
  cases : CaseMapping
  toUpperCase : Text → Text
  env : Option Text

/-! ## Headers -/

/-- The names are in lower case. -/
abbrev Headers := List (Text × Text)

def Headers.delete (headers : Headers) (name : Text) : Headers := headers.filter (·.1 ≠ name)

def Headers.set (headers : Headers) (name value : Text) : Headers := headers.delete name ++ [(name, value)]

def copyNativeHeaders (headers : List (Text × Text)) : Headers := headers.map fun (name, value) => (name.map lowerUnit, value)

def redirectStatuses : List Nat := [301, 302, 303, 307, 308]

def maxEgressRedirects : Nat := 20

def brokerAuthHeader : Text := .of "x-veryfront-egress-auth"

def brokerTargetHeader : Text := .of "x-veryfront-egress-target"

def hopByHopHeaders : List Text :=
  [.of "connection", .of "host", .of "keep-alive", .of "proxy-authenticate", .of "proxy-authorization", .of "proxy-connection",
    .of "te", .of "trailer", .of "transfer-encoding", .of "upgrade"]

def crossOriginCredentialHeaders : List Text :=
  [.of "authorization", .of "cookie", .of "proxy-authorization", .of "x-api-key", .of "api-key", .of "x-auth-token",
    .of "x-goog-api-key"]

def bodyHeaders : List Text :=
  [.of "content-encoding", .of "content-language", .of "content-length", .of "content-location", .of "content-type"]

def stripHopByHopHeaders (headers : Headers) : Headers := hopByHopHeaders.foldl Headers.delete headers

/-! ## Requests -/

inductive BodyKind
  | string
  | uint8Array
  | arrayBuffer
  | urlSearchParams
  | readableStream
  | other
deriving DecidableEq

structure Body where
  kind : BodyKind
  bytes : List Nat
deriving DecidableEq

/-- A body that can be sent again. -/
def isReplayableBody : Option Body → Bool
  | none => true
  | some body =>
    match body.kind with
    | .string | .uint8Array | .arrayBuffer | .urlSearchParams => true
    | .readableStream | .other => false

inductive RequestRedirect
  | follow
  | error
  | manual
deriving DecidableEq

structure NativeRequest where
  url : Text
  method : Text
  headers : List (Text × Text)
  body : Option Body
  redirect : Option RequestRedirect

inductive RequestInfo
  | url (url : Text)
  | request (request : NativeRequest)

structure RequestInit where
  redirect : Option RequestRedirect
  method : Option Text
  headers : Option (List (Text × Text))
  body : Option Body

structure Redirect where
  status : Nat
  fromUrl : Url
  toUrl : Url
deriving DecidableEq

structure Response where
  status : Nat
  location : Option Text
deriving DecidableEq

structure HttpBroker where
  url : Text
  token : Text
deriving DecidableEq

inductive FetchError
  | invalidUrl
  | egress (error : EgressError)
  | network
  | callback (message : Text)
deriving DecidableEq

/-- The address check and the policy may answer each hop otherwise. -/
structure GuardedEgressFetchDeps where
  authorizeUrl : Option (Nat → Url → Except FetchError Unit)
  onRedirect : Option (Redirect → Except FetchError Unit)
  options : Nat → WorkerEgressGuardOptions
  httpBroker : Option HttpBroker
  socksProxy : Bool
  /-- The requests go out over a pinned fetch, not over a tunnel. -/
  pinnedFetch : Bool
  allowedResolvedAddressesForTests : List Text

inductive Transport
  | broker (broker : HttpBroker)
  | socksProxy
  | pinned (addresses : List Text)
  | tunnel (addresses : List Text)
  | platform
deriving DecidableEq

/-- `url` is the text that is fetched, or that the broker is told to fetch. -/
structure SentRequest where
  transport : Transport
  url : Text
  parsedUrl : Url
  method : Text
  headers : Headers
  body : Option Body
deriving DecidableEq

/-- What comes of the request of a hop. -/
inductive Answer
  | unsent
  | failed
  | response (response : Response)

/-- What can be seen of a call. -/
inductive Event
  | authorized (hop : Nat) (url : Url)
  | admitted (hop : Nat) (url : Url) (addresses : List Text)
  | sent (hop : Nat) (request : SentRequest)
  | answered (url : Url) (response : Response)
  | redirected (redirect : Redirect)
deriving DecidableEq

/-- The address and the mark of a redirect are bound to an answer that is no redirect. -/
inductive Outcome
  | returned (response : Response) (metadata : Option (Text × Bool))
  | threw (error : FetchError)
deriving DecidableEq

/-- What the hops hand on. -/
structure Chain where
  url : Text
  method : Text
  headers : Headers
  body : Option Body
  didRedirect : Bool
  pendingRedirect : Option Redirect

/-! ## One hop -/

def authorize (deps : GuardedEgressFetchDeps) (hop : Nat) (parsedUrl : Url) : Except FetchError (List Event) :=
  match deps.authorizeUrl with
  | none => .ok []
  | some authorizeUrl => (authorizeUrl hop parsedUrl).map fun _ => [.authorized hop parsedUrl]

def connect (platform : Platform) (deps : GuardedEgressFetchDeps) (hop : Nat) (parsedUrl : Url) :
    Except FetchError (List Event × Transport) :=
  match getUrlHostname parsedUrl with
  | none => .ok ([], .platform)
  | some hostname =>
    if ¬ parsedUrl.isHttp then .ok ([], .platform)
    else
      match deps.httpBroker with
      | some broker => .ok ([], .broker broker)
      | none =>
        if hostname = [] then .ok ([], .platform)
        else if deps.socksProxy then .ok ([], .socksProxy)
        else
          match resolveWorkerHostEgressAddresses platform.cases platform.env hostname (deps.options hop)
            deps.allowedResolvedAddressesForTests with
          | .error error => .error (.egress error)
          | .ok addresses =>
            .ok ([.admitted hop parsedUrl addresses], if deps.pinnedFetch then .pinned addresses else .tunnel addresses)

/-- Over the broker the headers of a connection are left out, and its own are added. -/
def requestOf (chain : Chain) (parsedUrl : Url) (transport : Transport) : SentRequest where
  transport := transport
  url := chain.url
  parsedUrl := parsedUrl
  method := chain.method
  headers := match transport with
    | .broker broker =>
      (((stripHopByHopHeaders chain.headers).delete (.of "content-length")).set brokerAuthHeader broker.token).set
        brokerTargetHeader chain.url
    | _ => chain.headers
  body := chain.body

/-- A redirect is told once its destination has answered. -/
def notify (deps : GuardedEgressFetchDeps) (pendingRedirect : Option Redirect) : List Event × Except FetchError Unit :=
  match pendingRedirect, deps.onRedirect with
  | some redirect, some onRedirect => ([.redirected redirect], onRedirect redirect)
  | _, _ => ([], .ok ())

def blocked (message : Text) : Outcome := .threw (.egress (.blocked message false))

def isDowngrade (status : Nat) (method : Text) : Bool :=
  ((status = 301 || status = 302) && method = .of "POST") || (status = 303 && method ≠ .of "GET" && method ≠ .of "HEAD")

def follow (platform : Platform) (requestedRedirect : RequestRedirect) (hop : Nat) (chain : Chain) (parsedUrl : Url)
    (response : Response) : Outcome ⊕ Chain :=
  if response.status ∉ redirectStatuses then .inl (.returned response (some (chain.url, chain.didRedirect)))
  else
    match response.location with
    | none | some [] => .inl (.returned response none)
    | some location =>
      match requestedRedirect with
      | .manual => .inl (.returned response none)
      | .error => .inl (blocked (.of "Worker egress: unexpected redirect with redirect mode 'error'"))
      | .follow =>
        if maxEgressRedirects ≤ hop then
          .inl (blocked (.of "Worker network egress blocked: exceeded maximum redirect count"))
        else
          match platform.urls.parse location (some chain.url) with
          | none => .inl (.threw .invalidUrl)
          | some nextUrl =>
            if ¬ nextUrl.isHttp then
              .inl (blocked (.of "Worker network egress blocked: redirect to non-http(s) scheme " ++ nextUrl.protocol))
            else
              let crossOrigin := nextUrl.origin ≠ parsedUrl.origin
              let downgrades := isDowngrade response.status chain.method
              let kept := if crossOrigin then crossOriginCredentialHeaders.foldl Headers.delete chain.headers else chain.headers
              let headers := if downgrades then bodyHeaders.foldl Headers.delete kept else kept
              let next : Chain :=
                { chain with
                  url := nextUrl.href
                  headers := headers
                  didRedirect := true
                  pendingRedirect := some ⟨response.status, parsedUrl, nextUrl⟩ }
              if downgrades then .inr { next with method := .of "GET", body := none }
              else if isReplayableBody chain.body then .inr next
              else .inl (blocked (.of "Worker network egress blocked: cannot safely follow a body-preserving redirect"))

/-- One iteration of the loop: what it does, and how it ends or goes on. -/
def turn (platform : Platform) (deps : GuardedEgressFetchDeps) (network : Nat → Answer) (requestedRedirect : RequestRedirect)
    (hop : Nat) (chain : Chain) : List Event × (Outcome ⊕ Chain) :=
  match platform.urls.parse chain.url none with
  | none => ([], .inl (.threw .invalidUrl))
  | some parsedUrl =>
    match authorize deps hop parsedUrl with
    | .error error => ([], .inl (.threw error))
    | .ok authorized =>
      match connect platform deps hop parsedUrl with
      | .error error => (authorized, .inl (.threw error))
      | .ok (admitted, transport) =>
        let request := requestOf chain parsedUrl transport
        match network hop with
        | .unsent => (authorized ++ admitted, .inl (.threw .network))
        | .failed => (authorized ++ admitted ++ [.sent hop request], .inl (.threw .network))
        | .response response =>
          let (notified, told) := notify deps chain.pendingRedirect
          (authorized ++ admitted ++ .sent hop request :: .answered parsedUrl response :: notified,
            match told with
            | .error error => .inl (.threw error)
            | .ok () => follow platform requestedRedirect hop chain parsedUrl response)

/-! ## The call -/

/-- `none` where the fuel is used up. -/
def hops (platform : Platform) (deps : GuardedEgressFetchDeps) (network : Nat → Answer) (requestedRedirect : RequestRedirect) :
    (fuel : Nat) → (hop : Nat) → Chain → List Event × Option Outcome
  | 0, _, _ => ([], none)
  | fuel + 1, hop, chain =>
    match turn platform deps network requestedRedirect hop chain with
    | (events, .inl outcome) => (events, some outcome)
    | (events, .inr next) =>
      let (rest, outcome) := hops platform deps network requestedRedirect fuel (hop + 1) next
      (events ++ rest, outcome)

def materialize (mayFollowRedirect : Bool) (body : Body) : Body :=
  if mayFollowRedirect && body.kind = .readableStream then ⟨.uint8Array, body.bytes⟩ else body

def requestedRedirect (input : RequestInfo) (init : RequestInit) : RequestRedirect :=
  let ofRequest := match input with
    | .request request => request.redirect
    | .url _ => none
  (init.redirect <|> ofRequest).getD .follow

def initialBody (input : RequestInfo) (init : RequestInit) : Option Body :=
  let mayFollowRedirect := requestedRedirect input init = .follow
  match init.body, input with
  | some body, _ => some (materialize mayFollowRedirect body)
  | none, .request request => request.body.map fun body => materialize mayFollowRedirect ⟨.readableStream, body.bytes⟩
  | none, .url _ => none

def initialChain (platform : Platform) (input : RequestInfo) (init : RequestInit) : Chain where
  url := match input with
    | .request request => request.url
    | .url url => url
  method := platform.toUpperCase (init.method.getD (match input with
    | .request request => request.method
    | .url _ => .of "GET"))
  headers := copyNativeHeaders (init.headers.getD (match input with
    | .request request => request.headers
    | .url _ => []))
  body := initialBody input init
  didRedirect := false
  pendingRedirect := none

def guardedEgressFetch (platform : Platform) (deps : GuardedEgressFetchDeps) (network : Nat → Answer) (input : RequestInfo)
    (init : RequestInit) : List Event × Option Outcome :=
  hops platform deps network (requestedRedirect input init) (maxEgressRedirects + 1) 0 (initialChain platform input init)

end Veryfront.Security.Egress
