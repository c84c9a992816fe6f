import Veryfront.Security.NetworkAddresses

/-!
# Egress guard of the workers

Which addresses the code of a project may be connected to. A host that is an address stands for itself, every other one
for what the resolver answers.
-/

namespace Veryfront.Security.Egress

/-! ## Texts -/

def percent : Nat := 37

open Network (dot colon isDigit parseDigits)

/-- Capitals of the Latin alphabet become small. -/
def lowerUnit (c : Nat) : Nat := if 65 ≤ c ∧ c ≤ 90 then c + 32 else c

theorem lowerUnit_lowerUnit (c : Nat) : lowerUnit (lowerUnit c) = lowerUnit c := by
  simp only [lowerUnit]
  split
  · rw [if_neg (by omega)]
  · rfl

/-- A unit that keeps its place whatever stands beside it. -/
def IsPlain (c : Nat) : Prop := c < 128 ∨ c ∈ Text.whiteSpace

/-- The lower case of the language. It changes plain units one by one, and changes nothing twice. -/
structure CaseMapping where
  toLowerCase : Text → Text
  plain : ∀ t, (∀ c ∈ t, IsPlain c) → toLowerCase t = t.map lowerUnit
  outer : ∀ before middle after, (∀ c ∈ before ++ after, IsPlain c) →
    ∃ middle', toLowerCase (before ++ middle ++ after) = before.map lowerUnit ++ middle' ++ after.map lowerUnit
  settled : ∀ s t, s <:+: toLowerCase t → toLowerCase s = s

def latinCases : CaseMapping where
  toLowerCase t := t.map lowerUnit
  plain _ _ := rfl
  outer before middle after _ := ⟨middle.map lowerUnit, by simp⟩
  settled s t h := by
    refine (List.map_congr_left fun c hc => ?_).trans (List.map_id s)
    obtain ⟨d, -, rfl⟩ := List.mem_map.mp (h.subset hc)
    exact lowerUnit_lowerUnit d

variable (cases : CaseMapping)

def stripIpv6Brackets (value : Text) : Text :=
  if value.startsWith "[" && value.endsWith "]" then (value.drop 1).dropLast else value

def stripIpv6Zone (value : Text) : Text := value.takeWhile (· ≠ percent)

def normalizeInternalHost (hostname : Text) : Text := stripIpv6Brackets (cases.toLowerCase hostname.trim)

def normalizeAddress (address : Text) : Text := stripIpv6Zone (normalizeInternalHost cases address)

/-! ## Addresses -/

def parseOctet (part : Text) : Option Nat :=
  if 1 ≤ part.length ∧ part.length ≤ 3 ∧ part.all isDigit then
    if 255 < parseDigits 10 part then none else some (parseDigits 10 part)
  else none

def parseIpv4 (value : Text) : Option (List Nat) :=
  let parts := value.splitOn dot
  if parts.length ≠ 4 then none else parts.mapM parseOctet

def splitAtLastColon (value : Text) : Option (Text × Text) :=
  if colon ∈ value then
    some ((value.reverse.dropWhile (· ≠ colon)).tail.reverse, (value.reverse.takeWhile (· ≠ colon)).reverse)
  else none

def hextetsOf : List Nat → Text
  | [a, b, c, d] => toHex (a <<< 8 ||| b) ++ [colon] ++ toHex (c <<< 8 ||| d)
  | _ => []

/-- Four octets at the end are two groups. -/
def expandDottedSuffix (normalized : Text) : Option Text :=
  match splitAtLastColon normalized with
  | some (front, dottedSuffix) =>
    if dot ∈ dottedSuffix then (parseIpv4 dottedSuffix).map fun octets => front ++ [colon] ++ hextetsOf octets
    else some normalized
  | none => some normalized

def splitGroups (text : Text) : List Text := if text = [] then [] else text.splitOn colon

/-- Eight groups, those between two colons filled in. -/
def expandCompression (normalized : Text) : Option (List Text) :=
  match splitAtFirst [colon, colon] normalized with
  | some (leftText, rightText) =>
    let left := splitGroups leftText
    let right := splitGroups rightText
    if (splitAtFirst [colon, colon] rightText).isSome ∨ 8 < left.length + right.length + 1 then none
    else some (left ++ List.replicate (8 - left.length - right.length) [48] ++ right)
  | none => if (normalized.splitOn colon).length ≠ 8 then none else some (normalized.splitOn colon)

def isLowerHexDigit (c : Nat) : Bool := isDigit c || (97 ≤ c && c ≤ 102)

def parseHextet (group : Text) : Option Nat :=
  if 1 ≤ group.length ∧ group.length ≤ 4 ∧ group.all isLowerHexDigit then some (parseHex group) else none

/-- Eight groups of sixteen bits. -/
def parseIpv6 (value : Text) : Option (List Nat) := do
  let normalized ← expandDottedSuffix (cases.toLowerCase (stripIpv6Zone (stripIpv6Brackets value)))
  let parts ← expandCompression normalized
  parts.mapM parseHextet

def isPrivateIpv4 : List Nat → Bool
  | [a, b, c, _] =>
    a = 10 || a = 127 || (a = 169 && b = 254) || (a = 172 && 16 ≤ b && b ≤ 31) || (a = 192 && b = 168) ||
      (a = 100 && 64 ≤ b && b ≤ 127) || (a = 198 && (b = 18 || b = 19)) || (a = 192 && b = 0 && c = 0) ||
      (a = 192 && b = 0 && c = 2) || (a = 192 && b = 88 && c = 99) || (a = 198 && b = 51 && c = 100) ||
      (a = 203 && b = 0 && c = 113) || a = 0 || 224 ≤ a
  | _ => false

/-- Of eight groups. -/
def isInternalHextets (hextets : List Nat) : Bool :=
  let hextet (i : Nat) : Nat := hextets.getD i 0
  let isUnspecified := hextets.all (· = 0)
  let isLoopback := (hextets.take 7).all (· = 0) && hextet 7 = 1
  if isUnspecified || isLoopback then true
  else if (hextets.take 5).all (· = 0) && hextet 5 = 0xffff then
    isPrivateIpv4 [hextet 6 >>> 8, hextet 6 &&& 0xff, hextet 7 >>> 8, hextet 7 &&& 0xff]
  else
    let firstHextet := hextet 0
    let isIpv4Compatible := (hextets.take 6).all (· = 0)
    let isNat64 := firstHextet = 0x0064 &&
      ((hextet 1 = 0xff9b && hextet 2 = 0 && hextet 3 = 0) || (hextet 1 = 0xff9b && hextet 2 = 1))
    let isDiscardOnly := firstHextet = 0x0100 && ((hextets.drop 1).take 3).all (· = 0)
    let isIetfProtocolAssignment := firstHextet = 0x2001 && hextet 1 &&& 0xfe00 = 0
    let isDocumentation := firstHextet = 0x2001 && hextet 1 = 0x0db8
    let isDocumentationV2 := firstHextet = 0x3fff && hextet 1 &&& 0xf000 = 0
    let isSixToFour := firstHextet = 0x2002
    let isSiteLocal := firstHextet &&& 0xffc0 = 0xfec0
    let isMulticast := firstHextet &&& 0xff00 = 0xff00
    let isGlobalUnicast := firstHextet &&& 0xe000 = 0x2000
    isIpv4Compatible || isNat64 || isDiscardOnly || isIetfProtocolAssignment || isDocumentation || isDocumentationV2 ||
      isSixToFour || isSiteLocal || isMulticast || firstHextet &&& 0xffc0 = 0xfe80 || firstHextet &&& 0xfe00 = 0xfc00 ||
      !isGlobalUnicast

def isInternalIpv6 (value : Text) : Bool :=
  match parseIpv6 cases value with
  | none => false
  | some hextets => isInternalHextets hextets

def isInternalEgressIp (address : Text) : Bool :=
  let host := normalizeAddress cases address
  match parseIpv4 host with
  | some ipv4 => isPrivateIpv4 ipv4
  | none => colon ∈ host && isInternalIpv6 cases host

def isIpLiteral (address : Text) : Bool :=
  let host := normalizeAddress cases address
  (parseIpv4 host).isSome || (parseIpv6 cases host).isSome

def isLocalhostName (hostname : Text) : Bool :=
  let normalized := cases.toLowerCase hostname.trim
  normalized = .of "localhost" || normalized.endsWith ".localhost"

/-! ## The list of internal hosts -/

inductive ResolverError
  | dnsPermission (message : Text)
  | other (message : Text)
deriving DecidableEq

structure WorkerEgressGuardOptions where
  allowInternalEgress : Option Bool
  allowedInternalHosts : Option (List Text)
  /-- The resolver of the platform, unless the options have another one. -/
  resolveHost : Text → Except ResolverError (List Text)

def parseAllowedInternalHosts (value : Option Text) : List Text :=
  match value with
  | none => []
  | some value =>
    if value = [] then []
    else (((value.splitOn 44).map (normalizeInternalHost cases)).filter (0 < ·.length)).eraseDups

def opens (host : Text) : Bool := 0 < host.length && !isIpLiteral cases host && !isLocalhostName cases host

/-- `env` is the variable of the host that lists its internal names. -/
def isAllowedInternalHost (env : Option Text) (hostname : Text) (options : WorkerEgressGuardOptions) : Bool :=
  let entries := options.allowedInternalHosts.getD (parseAllowedInternalHosts cases env)
  let allowlist := (entries.map (normalizeInternalHost cases)).filter (opens cases)
  if allowlist.length = 0 then false
  else
    let host := normalizeInternalHost cases hostname
    if isIpLiteral cases host || isLocalhostName cases host then false else host ∈ allowlist

/-! ## Admission -/

inductive EgressError
  | blocked (message : Text) (privateAddress : Bool)
  | resolver (error : ResolverError)
deriving DecidableEq

def internalHostMessage (hostname : Text) : Text := .of "Worker network egress blocked for internal host: " ++ hostname

def unresolvedMessage (hostname : Text) : Text := .of "Worker network egress blocked: unable to resolve host " ++ hostname

def invalidAddressMessage (hostname : Text) : Text :=
  .of "Worker network egress blocked: resolver returned an invalid address for host " ++ hostname

def privateAddressMessage (hostname : Text) : Text := .of "Worker network egress blocked for host: " ++ hostname

def admitAddress (hostname : Text) (allowInternal : Bool) (allowedResolvedAddresses : List Text) (admitted : List Text)
    (address : Text) : Except EgressError (List Text) :=
  let normalizedAddress := normalizeAddress cases address
  if ¬ isIpLiteral cases normalizedAddress then .error (.blocked (invalidAddressMessage hostname) false)
  else if ¬ allowInternal ∧ isInternalEgressIp cases normalizedAddress ∧ normalizedAddress ∉ allowedResolvedAddresses then
    .error (.blocked (privateAddressMessage hostname) true)
  else .ok (if normalizedAddress ∈ admitted then admitted else admitted ++ [normalizedAddress])

/-- `allowedResolvedAddresses` is empty but in tests. -/
def resolveWorkerHostEgressAddresses (env : Option Text) (hostname : Text) (options : WorkerEgressGuardOptions)
    (allowedResolvedAddresses : List Text) : Except EgressError (List Text) :=
  let allowInternalEgress := options.allowInternalEgress = some true
  let host := normalizeInternalHost cases hostname
  let allowedInternalHost := isAllowedInternalHost cases env host options
  if ¬ allowInternalEgress ∧ ¬ allowedInternalHost ∧ (isLocalhostName cases host ∨ isInternalEgressIp cases host) then
    .error (.blocked (internalHostMessage hostname) true)
  else if isIpLiteral cases host then .ok [host]
  else
    match options.resolveHost host with
    | .error (.dnsPermission message) => .error (.blocked (.of "Worker network egress blocked: " ++ message) false)
    | .error error => .error (.resolver error)
    | .ok addresses =>
      if addresses.length = 0 then .error (.blocked (unresolvedMessage hostname) false)
      else
        addresses.foldlM (admitAddress cases hostname (allowInternalEgress || allowedInternalHost) allowedResolvedAddresses) []

end Veryfront.Security.Egress
