import Telemetry.Text.Decimal

/-! Addresses of the Internet Protocol and networks of them, as numbers of 32 or 128 bits, and the
readers of their usual spellings: four decimal octets, or groups of hexadecimal digits of which one
run of zeros may be left out and the last two may be written as octets. -/

namespace Telemetry

inductive IpAddress
  | v4 (value : BitVec 32)
  | v6 (value : BitVec 128)
  deriving DecidableEq, Repr

/-- The addresses that share their first `length` bits with `base`. -/
inductive IpNetwork
  | v4 (base : BitVec 32) (length : Nat)
  | v6 (base : BitVec 128) (length : Nat)
  deriving DecidableEq, Repr

/-- The first `length` bits of two words are equal. -/
def sameLeadingBits {w : Nat} (length : Nat) (a b : BitVec w) : Bool :=
  a >>> (w - length) == b >>> (w - length)

def IpNetwork.contains : IpNetwork → IpAddress → Bool
  | .v4 base length, .v4 a => sameLeadingBits length base a
  | .v6 base length, .v6 a => sameLeadingBits length base a
  | _, _ => false

/-- `127.0.0.0/8` and `::1`. -/
def IpAddress.isLoopback : IpAddress → Bool
  | .v4 a => sameLeadingBits 8 0x7F000000#32 a
  | .v6 a => a == 1#128

namespace Ip

/-- The value of a digit to a base of at most sixteen. -/
def digit? (base : Nat) (c : Char) : Option Nat :=
  let n :=
    if '0' ≤ c && c ≤ '9' then c.toNat - '0'.toNat
    else if 'a' ≤ c && c ≤ 'f' then c.toNat - 'a'.toNat + 10
    else if 'A' ≤ c && c ≤ 'F' then c.toNat - 'A'.toNat + 10
    else base
  if n < base then some n else none

/-- The value of digits, most significant first. -/
def valueOf (base : Nat) (ds : List Char) : Nat :=
  ds.foldl (fun n c => n * base + (digit? base c).getD 0) 0

/-- Reads all digits there are: at least one and at most `width`, for a number below `limit`. -/
def readNumber (base width limit : Nat) (cs : List Char) : Option (Nat × List Char) :=
  let ds := cs.takeWhile fun c => (digit? base c).isSome
  let n := valueOf base ds
  if ds.isEmpty || width < ds.length || limit ≤ n then none
  else some (n, cs.drop ds.length)

/-- What may differ between the spellings of addresses and of networks. -/
structure Dialect where
  /-- An octet may start with zeros. -/
  leadingZeros : Bool
  /-- A double colon may stand for no group at all. -/
  emptyGap : Bool
  deriving DecidableEq, Repr

/-- An address that stands by itself. -/
def Dialect.address : Dialect := ⟨false, false⟩

/-- The address in front of the length of a network. -/
def Dialect.network : Dialect := ⟨true, true⟩

def readOctet (d : Dialect) (cs : List Char) : Option (Nat × List Char) := do
  let (n, rest) ← readNumber 10 3 256 cs
  if !d.leadingZeros && cs.head? == some '0' && cs.length - rest.length != 1 then none
  else return (n, rest)

def expect (c : Char) : List Char → Option (List Char)
  | d :: ds => if d = c then some ds else none
  | [] => none

/-- Four octets with points between them. -/
def readV4 (d : Dialect) (cs : List Char) : Option (BitVec 32 × List Char) := do
  let (a, cs) ← readOctet d cs
  let (b, cs) ← readOctet d (← expect '.' cs)
  let (c, cs) ← readOctet d (← expect '.' cs)
  let (e, cs) ← readOctet d (← expect '.' cs)
  return (BitVec.ofNat 32 (((a * 256 + b) * 256 + c) * 256 + e), cs)

/-- Groups of sixteen bits, whether the last two were octets, and the rest of the text. -/
structure Groups where
  groups : List Nat
  octets : Bool
  rest : List Char

/-- Reads up to `limit` groups. Each but the first follows a colon, and octets take the room of
two groups. Stops in front of what is not a group. -/
def readGroups (d : Dialect) : (limit : Nat) → (first : Bool) → List Char → Groups
  | 0, _, cs => ⟨[], false, cs⟩
  | limit + 1, first, cs =>
    let start := if first then some cs else expect ':' cs
    match start with
    | none => ⟨[], false, cs⟩
    | some start =>
      let octets := if limit = 0 then none else readV4 d start
      match octets with
      | some (v, rest) => ⟨[v.toNat / Nat.pow 2 16, v.toNat % Nat.pow 2 16], true, rest⟩
      | none =>
        match readNumber 16 4 (Nat.pow 2 16) start with
        | none => ⟨[], false, cs⟩
        | some (g, rest) =>
          let more := readGroups d limit false rest
          { more with groups := g :: more.groups }

/-- The address whose groups are `head`, zeros, and `tail`. -/
def ofGroups (head tail : List Nat) : BitVec 128 :=
  BitVec.ofNat 128 <|
    (head ++ List.replicate (8 - head.length - tail.length) 0 ++ tail).foldl
      (fun n g => n * Nat.pow 2 16 + g) 0

/-- Eight groups, or fewer around a double colon. Octets stand at the end only. -/
def readV6 (d : Dialect) (cs : List Char) : Option (BitVec 128 × List Char) :=
  let head := readGroups d 8 true cs
  if head.groups.length = 8 then some (ofGroups head.groups [], head.rest)
  else if head.octets then none
  else do
    let rest ← expect ':' (← expect ':' head.rest)
    let room := 8 - head.groups.length
    let tail := readGroups d (if d.emptyGap then room else room - 1) true rest
    return (ofGroups head.groups tail.groups, tail.rest)

end Ip

/-- Reads a whole text as an address. -/
def IpAddress.parse? (cs : List Char) : Option IpAddress :=
  match Ip.readV4 .address cs with
  | some (a, rest) => if rest.isEmpty then some (.v4 a) else none
  | none =>
    match Ip.readV6 .address cs with
    | some (a, []) => some (.v6 a)
    | _ => none

/-- Reads a whole text as an address, a slash, and a length of at most 32 or 128. -/
def IpNetwork.parse? (cs : List Char) : Option IpNetwork :=
  let v4 := do
    let (a, rest) ← Ip.readV4 .network cs
    let (n, rest) ← Ip.readNumber 10 2 33 (← Ip.expect '/' rest)
    return (IpNetwork.v4 a n, rest)
  let v6 := do
    let (a, rest) ← Ip.readV6 .network cs
    let (n, rest) ← Ip.readNumber 10 3 129 (← Ip.expect '/' rest)
    return (IpNetwork.v6 a n, rest)
  match v4.orElse fun _ => v6 with
  | some (n, []) => some n
  | _ => none

end Telemetry
