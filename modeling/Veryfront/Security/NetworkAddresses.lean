import Veryfront.Lib.Cidr
import Veryfront.Utils.Hex

/-!
# Network addresses

What a text denotes, and which addresses are reached from everywhere.
-/

namespace Veryfront.Security.Network

open Lib.Cidr

def dot : Nat := 46

def colon : Nat := 58

def isDigit (c : Nat) : Bool := 48 ≤ c && c ≤ 57

def parseDigits (base : Nat) (t : Text) : Nat := t.foldl (fun n c => base * n + (c - 48)) 0

/-- By its 32 or its 128 bits. -/
inductive Address
  | v4 (n : Nat)
  | v6 (n : Nat)
deriving DecidableEq

/-! ## Texts -/

/-- One to three decimal digits, leading zeros among them. -/
structure Octet (part : Text) (n : Nat) : Prop where
  length : 1 ≤ part.length ∧ part.length ≤ 3
  digits : ∀ c ∈ part, isDigit c = true
  value : parseDigits 10 part = n
  le : n ≤ 255

inductive Dotted : Text → List Nat → Prop
  | intro {p q r s : Text} {a b c d : Nat} (hp : Octet p a) (hq : Octet q b) (hr : Octet r c) (hs : Octet s d) :
    Dotted ([dot].intercalate [p, q, r, s]) [a, b, c, d]

structure Hextet (group : Text) (h : Nat) : Prop where
  length : 1 ≤ group.length ∧ group.length ≤ 4
  digits : ∀ c ∈ group, (hexDigit c).isSome = true
  value : parseHex group = h

/-- The groups at the end of an address, the last two of which may be four octets. -/
inductive Groups : List Text → List Nat → Prop
  | nil : Groups [] []
  | dotted {text : Text} {a b c d : Nat} (h : Dotted text [a, b, c, d]) : Groups [text] [256 * a + b, 256 * c + d]
  | cons {group : Text} {groups : List Text} {h : Nat} {hs : List Nat} (head : Hextet group h) (tail : Groups groups hs) :
    Groups (group :: groups) (h :: hs)

def joinGroups (groups : List Text) : Text := [colon].intercalate groups

/-- Eight groups, or fewer with the zeros between them left out. -/
inductive Colons : Text → List Nat → Prop
  | full {groups : List Text} {hs : List Nat} (h : Groups groups hs) (length : hs.length = 8) : Colons (joinGroups groups) hs
  | compressed {left right : List Text} {high low : List Nat} (hleft : List.Forall₂ Hextet left high) (hright : Groups right low)
    (length : high.length + low.length < 8) :
    Colons (joinGroups left ++ [colon, colon] ++ joinGroups right)
      (high ++ List.replicate (8 - high.length - low.length) 0 ++ low)

inductive Spells : Text → Address → Prop
  | dotted {text : Text} {octets : List Nat} (h : Dotted text octets) : Spells text (.v4 (value 256 octets))
  | colons {text : Text} {hs : List Nat} (h : Colons text hs) : Spells text (.v6 (value 65536 hs))

/-- May stand before an address: white space and opening brackets. -/
def Opens (c : Nat) : Prop := c ∈ Text.whiteSpace ∨ c = 91

/-- Ends an address: white space, a closing bracket, or the sign before a zone. -/
def Closes (c : Nat) : Prop := c ∈ Text.whiteSpace ∨ c = 93 ∨ c = 37

/-- An address in white space and brackets, with a zone or without. -/
def Denotes (text : Text) (address : Address) : Prop :=
  ∃ before core after, text = before ++ core ++ after ∧ (∀ c ∈ before, Opens c) ∧ (∀ c ∈ after.head?, Closes c) ∧
    Spells core address

/-! ## Numbers and dots -/

def isOctalDigit (c : Nat) : Bool := 48 ≤ c && c ≤ 55

/-- In base 16 after `0x`, in base 8 after a zero. -/
def inetNumber : Text → Option Nat
  | [] => none
  | 48 :: 120 :: digits | 48 :: 88 :: digits =>
    if digits ≠ [] ∧ digits.all fun c => (hexDigit c).isSome then some (parseHex digits) else none
  | 48 :: digits => if digits.all isOctalDigit then some (parseDigits 8 digits) else none
  | digits => if digits.all isDigit then some (parseDigits 10 digits) else none

def isInetSpace (c : Nat) : Bool := (9 ≤ c && c ≤ 13) || c = 32

/-- What is read as numbers: all that stands before a space. -/
def inetText (text : Text) : Text := text.takeWhile fun c => !isInetSpace c

/-- The last number has all of the octets that are left. -/
def inetNumbers (text : Text) : Option Nat :=
  match (text.splitOn dot).mapM inetNumber with
  | some [a] => if a < 2 ^ 32 then some a else none
  | some [a, b] => if a < 256 ∧ b < 2 ^ 24 then some (a * 2 ^ 24 + b) else none
  | some [a, b, c] => if a < 256 ∧ b < 256 ∧ c < 2 ^ 16 then some ((256 * a + b) * 2 ^ 16 + c) else none
  | some [a, b, c, d] => if a < 256 ∧ b < 256 ∧ c < 256 ∧ d < 256 then some (value 256 [a, b, c, d]) else none
  | _ => none

def inetAton (text : Text) : Option Nat := inetNumbers (inetText text)

/-- Four numbers in dots that are another address, one that is not reached from everywhere, in base 8. -/
def OctalNumbers (text : Text) : Prop :=
  ∃ p q r s : Text, text = [dot].intercalate [p, q, r, s] ∧
    (∀ part ∈ [p, q, r, s], (∀ c ∈ part, isDigit c = true) ∧ (part.head? = some 48 → ∀ c ∈ part, isOctalDigit c = true)) ∧
      (p = .of "012" ∨
        (p = .of "172" ∧ q ∈ [.of "032", .of "033", .of "034", .of "035", .of "036", .of "037"]) ∨
        (p = .of "198" ∧ (q ∈ [Text.of "022", .of "023"] ∨ (q = .of "063" ∧ r = .of "100"))))

def IsOctalTrap (text : Text) : Prop := OctalNumbers (inetText text)

/-! ## Blocks -/

def block4 (octets : List Nat) (length : Nat) : Block := ⟨value 256 octets, length⟩

def block6 (hextets : List Nat) (length : Nat) : Block := ⟨value 65536 hextets, length⟩

def nonGlobal4 : List Block :=
  [ -- private, loopback, link-local, shared and benchmarking networks
    block4 [10, 0, 0, 0] 8, block4 [127, 0, 0, 0] 8, block4 [169, 254, 0, 0] 16, block4 [172, 16, 0, 0] 12,
    block4 [192, 168, 0, 0] 16, block4 [100, 64, 0, 0] 10, block4 [198, 18, 0, 0] 15,
    -- protocol assignments, documentation, relays
    block4 [192, 0, 0, 0] 24, block4 [192, 0, 2, 0] 24, block4 [192, 88, 99, 0] 24, block4 [198, 51, 100, 0] 24,
    block4 [203, 0, 113, 0] 24,
    -- this network, multicast, reserved, broadcast
    block4 [0, 0, 0, 0] 8, block4 [224, 0, 0, 0] 3]

def ipv4Mapped : Block := block6 [0, 0, 0, 0, 0, 0xffff, 0, 0] 96

def globalUnicast : Block := block6 [0x2000, 0, 0, 0, 0, 0, 0, 0] 3

def nonGlobal6 : List Block :=
  [ -- unspecified, loopback, compatible
    block6 [0, 0, 0, 0, 0, 0, 0, 0] 128, block6 [0, 0, 0, 0, 0, 0, 0, 1] 128, block6 [0, 0, 0, 0, 0, 0, 0, 0] 96,
    -- translation, discard
    block6 [0x64, 0xff9b, 0, 0, 0, 0, 0, 0] 96, block6 [0x64, 0xff9b, 1, 0, 0, 0, 0, 0] 48, block6 [0x100, 0, 0, 0, 0, 0, 0, 0] 64,
    -- protocol assignments, documentation, relays
    block6 [0x2001, 0, 0, 0, 0, 0, 0, 0] 23, block6 [0x2001, 0xdb8, 0, 0, 0, 0, 0, 0] 32, block6 [0x3fff, 0, 0, 0, 0, 0, 0, 0] 20,
    block6 [0x2002, 0, 0, 0, 0, 0, 0, 0] 16,
    -- unique local, link-local, site-local, multicast
    block6 [0xfc00, 0, 0, 0, 0, 0, 0, 0] 7, block6 [0xfe80, 0, 0, 0, 0, 0, 0, 0] 10, block6 [0xfec0, 0, 0, 0, 0, 0, 0, 0] 10,
    block6 [0xff00, 0, 0, 0, 0, 0, 0, 0] 8]

/-- In no block that is not reached from everywhere. A mapped address is that of its last 32 bits. -/
def Global : Address → Prop
  | .v4 n => ∀ block ∈ nonGlobal4, ¬ block.Contains 32 n
  | .v6 n =>
    if ipv4Mapped.Contains 128 n then ∀ block ∈ nonGlobal4, ¬ block.Contains 32 (n % 2 ^ 32)
    else globalUnicast.Contains 128 n ∧ ∀ block ∈ nonGlobal6, ¬ block.Contains 128 n

instance : DecidablePred Global
  | .v4 n => inferInstanceAs (Decidable (∀ block ∈ nonGlobal4, ¬ block.Contains 32 n))
  | .v6 n => inferInstanceAs (Decidable (if ipv4Mapped.Contains 128 n then
      ∀ block ∈ nonGlobal4, ¬ block.Contains 32 (n % 2 ^ 32)
    else globalUnicast.Contains 128 n ∧ ∀ block ∈ nonGlobal6, ¬ block.Contains 128 n))

/-- Whichever way a text is read, it is reached from everywhere. -/
structure PublicText (text : Text) : Prop where
  denotes : ∃ a, Denotes text a
  address : ∀ a, Denotes text a → Global a
  numbers : ∀ n, inetAton text = some n → Global (.v4 n)

end Veryfront.Security.Network
