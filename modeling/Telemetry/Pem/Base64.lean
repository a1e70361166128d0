import Telemetry.Text.Bytes

/-! Base 64: four symbols for three bytes. Blanks between symbols are skipped, padding may be left
out, and the bits that do not fill a byte are not looked at. -/

namespace Telemetry.Base64

inductive Fault
  | invalidCharacter (byte : UInt8)
  | prematurePadding
  | invalidTrailingPadding
  deriving DecidableEq, Repr

def Fault.message : Fault → String
  | .invalidCharacter b => "InvalidCharacter(" ++ toString b.toNat ++ ")"
  | .prematurePadding => "PrematurePadding"
  | .invalidTrailingPadding => "InvalidTrailingPadding"

/-- Six bits, or the sign that there are none. -/
inductive Symbol
  | bits (value : Nat)
  | padding
  deriving DecidableEq, Repr

namespace Symbol

def ofByte? (b : UInt8) : Option Symbol :=
  let n := b.toNat
  if 65 ≤ n ∧ n ≤ 90 then some (.bits (n - 65))
  else if 97 ≤ n ∧ n ≤ 122 then some (.bits (n - 97 + 26))
  else if 48 ≤ n ∧ n ≤ 57 then some (.bits (n - 48 + 52))
  else if n = 43 then some (.bits 62)
  else if n = 47 then some (.bits 63)
  else if n = 61 then some .padding
  else none

def value : Symbol → Nat
  | .bits n => n
  | .padding => 0

def isPadding : Symbol → Bool
  | .bits _ => false
  | .padding => true

end Symbol

/-- Tab, line feed, vertical tab, form feed, carriage return and space. -/
def isBlank (b : UInt8) : Bool := (9 ≤ b && b ≤ 13) || b == 32

/-- The bytes of four symbols. -/
def quadBytes (a b c d : Nat) : Bytes :=
  let n := ((a * 64 + b) * 64 + c) * 64 + d
  [UInt8.ofNat (n / 65536), UInt8.ofNat (n / 256), UInt8.ofNat n]

/-- The last quad, which may be padded or cut short. -/
def lastQuad : List Symbol → Except Fault Bytes
  | [] => .ok []
  | [.bits a, .bits b] => .ok ((quadBytes a b 0 0).take 1)
  | [.bits a, .bits b, .padding, .padding] => .ok ((quadBytes a b 0 0).take 1)
  | [.bits a, .bits b, .bits c] => .ok ((quadBytes a b c 0).take 2)
  | [.bits a, .bits b, .bits c, .padding] => .ok ((quadBytes a b c 0).take 2)
  | [.bits a, .bits b, .bits c, .bits d] => .ok (quadBytes a b c d)
  | _ => .error .invalidTrailingPadding

/-- At most two quads, of which only the last one may be padded. -/
def lastBlock (symbols : List Symbol) : Except Fault Bytes :=
  match symbols with
  | a :: b :: c :: d :: e :: rest =>
    if [a, b, c, d].any Symbol.isPadding then .error .prematurePadding
    else (lastQuad (e :: rest)).map (quadBytes a.value b.value c.value d.value ++ ·)
  | symbols => lastQuad symbols

/-- The bytes of a block of two quads that is not the last one. -/
def block (symbols : List Symbol) : Except Fault Bytes :=
  if symbols.any Symbol.isPadding then .error .prematurePadding else lastBlock symbols

def blockSize : Nat := 8

/-- Reads on after the symbols of a block that has not been decoded. A block is decoded when the
symbol after it arrives. -/
def decodeFrom (pending : List Symbol) : Bytes → Except Fault Bytes
  | [] => lastBlock pending
  | b :: bs =>
    if isBlank b then decodeFrom pending bs
    else
      match Symbol.ofByte? b with
      | none => .error (.invalidCharacter b)
      | some s =>
        if pending.length = blockSize then do
          let first ← block pending
          let rest ← decodeFrom [s] bs
          return first ++ rest
        else decodeFrom (pending ++ [s]) bs

def decode (bs : Bytes) : Except Fault Bytes := decodeFrom [] bs

end Telemetry.Base64
