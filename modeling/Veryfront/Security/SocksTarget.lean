import Veryfront.Cache.SegmentCodec
import Veryfront.Lib.Decimal
import Veryfront.Lib.Delivery
import Veryfront.Security.WorkerEgressGuard

/-!
# Targets of the proxy

A host and a port as the octets of a SOCKS request, and when two texts name the same host.
-/

namespace Veryfront.Security.Egress

open Lib Lib.Delivery
open Network (dot colon)
open Cache (textEncode textDecode)

variable (cases : CaseMapping)

/-! ## Hosts -/

def everyValue (left right : List Nat) : Bool := left.isPrefixOf right

def normalizeName (value : Text) : Text :=
  let normalized := cases.toLowerCase value.trim
  if normalized.endsWith "." then normalized.dropLast else normalized

def hostsMatch (left right : Text) : Bool :=
  match parseIpv4 (stripIpv6Brackets left), parseIpv4 (stripIpv6Brackets right) with
  | some leftV4, some rightV4 => everyValue leftV4 rightV4
  | some _, none => false
  | none, some _ => false
  | none, none =>
    match parseIpv6 cases left, parseIpv6 cases right with
    | some leftV6, some rightV6 => everyValue leftV6 rightV6
    | some _, none => false
    | none, some _ => false
    | none, none => normalizeName cases left = normalizeName cases right

/-! ## Requests -/

def portBytes (port : Nat) : List Nat := [port >>> 8, port &&& 0xff]

/-- The type of an address, and its octets. -/
def encodeSocksAddress (normalizedHostname : Text) : Except EgressError (Nat × List Nat) :=
  match parseIpv4 normalizedHostname with
  | some ipv4 => .ok (0x01, ipv4)
  | none =>
    match parseIpv6 cases normalizedHostname with
    | some ipv6 => .ok (0x04, ipv6.flatMap fun hextet => [hextet >>> 8, hextet &&& 0xff])
    | none =>
      let encodedHostname := textEncode normalizedHostname
      if encodedHostname.length = 0 ∨ 255 < encodedHostname.length then
        .error (.blocked (.of "Worker network egress blocked: hostname is too long for the proxy transport") false)
      else .ok (0x03, encodedHostname.length :: encodedHostname)

def encodeSocksTarget (hostname : Text) (port : Nat) : Except EgressError (List Nat) := do
  let (addressType, address) ← encodeSocksAddress cases (stripIpv6Brackets hostname)
  return [0x05, 0x01, 0x00, addressType] ++ address ++ portBytes port

inductive SocksError
  | error (message : String)
  /-- That of the decoder. -/
  | invalidUtf8
deriving DecidableEq

structure SocksTarget where
  hostname : Text
  port : Nat
deriving DecidableEq

def readExactly (length : Nat) : Reader Nat SocksError (List Nat) :=
  readUpTo (.error "SOCKS proxy connection closed during handshake") length

/-- Two octets make a group. -/
def hextetTexts : List Nat → List Text
  | [] => []
  | [high] => [toHex (high <<< 8)]
  | high :: low :: address => toHex (high <<< 8 ||| low) :: hextetTexts address

def decodeHostname (bytes : List Nat) : Reader Nat SocksError Text :=
  match textDecode bytes with
  | some hostname => return hostname
  | none => throw .invalidUtf8

def readSocksAddress : (addressType : Nat) → Reader Nat SocksError Text
  | 0x01 => do return [dot].intercalate ((← readExactly 4).map decimal)
  | 0x03 => do
    let length := (← readExactly 1).getD 0 0
    if length = 0 then throw (.error "SOCKS proxy received an empty hostname")
    else decodeHostname (← readExactly length)
  | 0x04 => do return [colon].intercalate (hextetTexts (← readExactly 16))
  | _ => throw (.error "SOCKS proxy received an unsupported address type")

def readSocksTarget : Reader Nat SocksError SocksTarget := do
  let request ← readExactly 4
  if request.take 3 ≠ [0x05, 0x01, 0x00] then throw (.error "SOCKS proxy received an unsupported request")
  else
    let hostname ← readSocksAddress (request.getD 3 0)
    let portBytes ← readExactly 2
    return ⟨hostname, portBytes.getD 0 0 <<< 8 ||| portBytes.getD 1 0⟩

end Veryfront.Security.Egress
