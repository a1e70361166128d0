import Telemetry.Text.Bytes

/-! Distinguished encoding: an element is a tag, a length and a content of that length. Tags take
one byte, and lengths as few bytes as they need. -/

namespace Telemetry.Der

structure Limits where
  /-- The most bytes that a long length is written in. -/
  lengthBytes : Nat
  /-- The longest content. -/
  maxContent : Nat
  deriving DecidableEq, Repr

def Limits.certificate : Limits := ⟨4, 65534⟩

def Limits.key : Limits := ⟨2, 65535⟩

def booleanTag : UInt8 := 0x01
def integerTag : UInt8 := 0x02
def bitStringTag : UInt8 := 0x03
def octetStringTag : UInt8 := 0x04
def identifierTag : UInt8 := 0x06
def sequenceTag : UInt8 := 0x30

/-- The tag of the constructed element with number `n` of its context. -/
def contextTag (n : UInt8) : UInt8 := 0xA0 + n

/-- The tag of the primitive element with number `n` of its context. -/
def primitiveContextTag (n : UInt8) : UInt8 := 0x80 + n

/-- The number that bytes denote, most significant first. -/
def natOfBytes (bs : Bytes) : Nat := bs.foldl (fun n b => n * 256 + b.toNat) 0

/-- The first `n` bytes, if there are as many. -/
def splitBytes (n : Nat) (bs : Bytes) : Option (Bytes × Bytes) :=
  if bs.length < n then none else some (bs.take n, bs.drop n)

/-- Reads a length. One below 128 takes one byte, and any other one is preceded by the number of
its bytes, as few as possible. -/
def readLength (l : Limits) : Bytes → Option (Nat × Bytes)
  | [] => none
  | b :: rest =>
    if b < 128 then some (b.toNat, rest)
    else do
      let count := b.toNat - 128
      if count = 0 || l.lengthBytes < count then none
      else
        let (digits, rest) ← splitBytes count rest
        let n := natOfBytes digits
        if n < 128 || n < Nat.pow 256 (count - 1) then none else return (n, rest)

structure Element where
  tag : UInt8
  content : Bytes
  deriving DecidableEq, Repr

/-- Reads an element. Tags of more than one byte are refused. -/
def readElement (l : Limits) : Bytes → Option (Element × Bytes)
  | [] => none
  | tag :: rest =>
    if tag &&& 0x1F = 0x1F then none
    else do
      let (n, rest) ← readLength l rest
      if l.maxContent < n then none
      else
        let (content, rest) ← splitBytes n rest
        return (⟨tag, content⟩, rest)

/-- Reads the content of an element with a tag. -/
def expect (l : Limits) (tag : UInt8) (bs : Bytes) : Option (Bytes × Bytes) := do
  let (e, rest) ← readElement l bs
  if e.tag = tag then return (e.content, rest) else none

/-- The bytes of an integer that is not negative, without the zero that shows its sign. It is
written in as few bytes as possible. -/
def magnitude : Bytes → Option Bytes
  | [] => none
  | [b] => if b < 128 then some [b] else none
  | b :: c :: rest =>
    if b = 0 then if c < 128 then none else some (c :: rest)
    else if b < 128 then some (b :: c :: rest)
    else none

/-- Reads an integer that is not negative. -/
def readMagnitude (l : Limits) (bs : Bytes) : Option (Bytes × Bytes) := do
  let (content, rest) ← expect l integerTag bs
  return (← magnitude content, rest)

/-- Reads an integer that fits a byte. -/
def readSmall (l : Limits) (bs : Bytes) : Option (UInt8 × Bytes) := do
  match ← readMagnitude l bs with
  | ([b], rest) => return (b, rest)
  | _ => none

/-- The bytes of a string of bits whose number is a multiple of eight. -/
def wholeBytes : Bytes → Option Bytes
  | 0 :: rest => some rest
  | _ => none

/-- A length as it is written. -/
def lengthBytes (n : Nat) : Bytes :=
  if n < 128 then [UInt8.ofNat n]
  else if n < 256 then [0x81, UInt8.ofNat n]
  else [0x82, UInt8.ofNat (n / 256), UInt8.ofNat n]

/-- An element as it is written. -/
def element (tag : UInt8) (content : Bytes) : Bytes := tag :: lengthBytes content.length ++ content

/-- The content of a positive integer, from its bytes without leading zeros. -/
def positive (bs : Bytes) : Bytes :=
  match bs with
  | b :: _ => if b < 128 then bs else 0 :: bs
  | [] => [0]

end Telemetry.Der
