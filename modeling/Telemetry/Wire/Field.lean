import Telemetry.Wire.Varint

/-! Fields of a message: a key, which holds the number of the field and the shape of what
follows, and the payload. Reading takes the bytes of the whole input that are left, so that a
length may reach beyond the message around it and is refused only at that message's end. -/

namespace Telemetry.Wire

inductive WireType
  | varint
  | fixed64
  | delimited
  | startGroup
  | endGroup
  | fixed32
  deriving DecidableEq, Repr

namespace WireType

def code : WireType → Nat
  | .varint => 0
  | .fixed64 => 1
  | .delimited => 2
  | .startGroup => 3
  | .endGroup => 4
  | .fixed32 => 5

def ofCode? : Nat → Option WireType
  | 0 => some .varint
  | 1 => some .fixed64
  | 2 => some .delimited
  | 3 => some .startGroup
  | 4 => some .endGroup
  | 5 => some .fixed32
  | _ => none

theorem code_lt (w : WireType) : w.code < 8 := by cases w <;> decide

@[simp] theorem ofCode?_code (w : WireType) : ofCode? w.code = some w := by cases w <;> rfl

def name : WireType → String
  | .varint => "Varint"
  | .fixed64 => "SixtyFourBit"
  | .delimited => "LengthDelimited"
  | .startGroup => "StartGroup"
  | .endGroup => "EndGroup"
  | .fixed32 => "ThirtyTwoBit"

end WireType

inductive Cause
  | invalidVarint
  | invalidKey (key : Nat)
  | invalidNumber
  | invalidWireType (code : Nat)
  | wrongWireType (actual expected : WireType)
  | underflow
  | lengthExceeded
  | wrongEndGroup
  | invalidText
  | tooDeep
  deriving DecidableEq, Repr

def Cause.message : Cause → String
  | .invalidVarint => "invalid varint"
  | .invalidKey key => "invalid key value: " ++ toString key
  | .invalidNumber => "invalid tag value: 0"
  | .invalidWireType code => "invalid wire type value: " ++ toString code
  | .wrongWireType actual expected =>
    "invalid wire type: " ++ actual.name ++ " (expected " ++ expected.name ++ ")"
  | .underflow => "buffer underflow"
  | .lengthExceeded => "delimited length exceeded"
  | .wrongEndGroup => "unexpected end group tag"
  | .invalidText => "invalid string value: data is not UTF-8 encoded"
  | .tooDeep => "recursion limit reached"

/-- A cause and the fields around it, each with its message, from the inside to the outside. -/
structure Fault where
  cause : Cause
  fields : List (String × String) := []
  deriving DecidableEq, Repr

def Fault.message (f : Fault) : String :=
  "failed to decode Protobuf message: "
    ++ String.join (f.fields.map fun (message, field) => message ++ "." ++ field ++ ": ")
    ++ f.cause.message

/-- Names the field around a fault. -/
def inField {α : Type} (message field : String) (r : Except Fault α) : Except Fault α :=
  r.mapError fun f => { f with fields := f.fields ++ [(message, field)] }

def fault {α : Type} (cause : Cause) : Except Fault α := .error { cause }

/-- What comes before a payload. Numbers start at one. -/
structure Key where
  number : Nat
  wireType : WireType
  deriving DecidableEq, Repr

def Key.encode (k : Key) : Bytes := varint (UInt64.ofNat (k.number * 8 + k.wireType.code))

/-- A number of variable length, or the fault of there being none. -/
def readNumber (s : Bytes) : Except Fault (UInt64 × Bytes) :=
  match readVarint s with
  | some x => .ok x
  | none => fault .invalidVarint

def readKey (s : Bytes) : Except Fault (Key × Bytes) := do
  let (n, s) ← readNumber s
  if Nat.pow 2 32 ≤ n.toNat then fault (.invalidKey n.toNat) else
  match WireType.ofCode? (n.toNat % 8) with
  | none => fault (.invalidWireType (n.toNat % 8))
  | some w => if n.toNat / 8 = 0 then fault .invalidNumber else return (⟨n.toNat / 8, w⟩, s)

/-- Goes on only with the expected shape. -/
def expect {α : Type} (actual expected : WireType) (r : Except Fault α) : Except Fault α :=
  if actual = expected then r else fault (.wrongWireType actual expected)

/-- The number of bytes that a length announces, if as many are left. -/
def readLength (s : Bytes) : Except Fault (Nat × Bytes) := do
  let (n, s) ← readNumber s
  if s.length < n.toNat then fault .underflow else return (n.toNat, s)

def readVarintField (w : WireType) (s : Bytes) : Except Fault (UInt64 × Bytes) :=
  expect w .varint (readNumber s)

def readBytesField (w : WireType) (s : Bytes) : Except Fault (Bytes × Bytes) :=
  expect w .delimited do
    let (n, s) ← readLength s
    return (s.take n, s.drop n)

def readTextField (w : WireType) (s : Bytes) : Except Fault (String × Bytes) := do
  let (bs, s) ← readBytesField w s
  match Text.ofUtf8? bs with
  | some text => return (text, s)
  | none => fault .invalidText

/-- Four bytes, the lowest first. -/
def readFixed32Field (w : WireType) (s : Bytes) : Except Fault (UInt32 × Bytes) :=
  expect w .fixed32 <|
    match s with
    | a :: b :: c :: d :: r =>
      .ok (a.toUInt32 ||| b.toUInt32 <<< 8 ||| c.toUInt32 <<< 16 ||| d.toUInt32 <<< 24, r)
    | _ => fault .underflow

/-- The fields of a group, up to the end of the group with its number. Every field takes at least
one byte of `fuel`. -/
def skipGroup (skip : Key → Bytes → Except Fault Bytes) (number : Nat) :
    (fuel : Nat) → Bytes → Except Fault Bytes
  | 0, _ => fault .invalidVarint
  | fuel + 1, s => do
    let (k, s) ← readKey s
    if k.wireType = .endGroup then
      if k.number = number then return s else fault .wrongEndGroup
    else
      let s ← skip k s
      skipGroup skip number fuel s

/-- Leaves out the payload of a field that the schema does not declare, in which groups nest at
most `depth` deep. -/
def skipField : (depth : Nat) → Key → Bytes → Except Fault Bytes
  | 0, _, _ => fault .tooDeep
  | depth + 1, k, s =>
    match k.wireType with
    | .varint => (readNumber s).map (·.2)
    | .fixed64 => if s.length < 8 then fault .underflow else .ok (s.drop 8)
    | .fixed32 => if s.length < 4 then fault .underflow else .ok (s.drop 4)
    | .delimited => (readLength s).map fun (n, s) => s.drop n
    | .startGroup => skipGroup (skipField depth) k.number s.length s
    | .endGroup => fault .wrongEndGroup

/-- Reads one field into a message that has been read so far. -/
abbrev FieldReader (σ : Type) := Key → σ → Bytes → Except Fault (σ × Bytes)

/-- Fields as long as more than `limit` bytes are left. Every field takes at least one byte of
`fuel`. -/
def readFields {σ : Type} (field : FieldReader σ) (limit : Nat) :
    (fuel : Nat) → σ → Bytes → Except Fault (σ × Bytes)
  | 0, st, s => .ok (st, s)
  | fuel + 1, st, s =>
    if s.length ≤ limit then .ok (st, s) else do
      let (k, s) ← readKey s
      let (st, s) ← field k st s
      readFields field limit fuel st s

/-- A length and as many bytes of fields. -/
def readDelimited {σ : Type} (field : FieldReader σ) (st : σ) (s : Bytes) :
    Except Fault (σ × Bytes) := do
  let (n, s) ← readLength s
  let limit := s.length - n
  let (st, s) ← readFields field limit s.length st s
  if s.length = limit then return (st, s) else fault .lengthExceeded

/-- A message in a field, merged into what has been read of it, with `depth` levels left. -/
def readSubmessage {σ : Type} (depth : Nat) (field : Nat → FieldReader σ) (w : WireType) (st : σ)
    (s : Bytes) : Except Fault (σ × Bytes) :=
  expect w .delimited <|
    match depth with
    | 0 => fault .tooDeep
    | depth + 1 => readDelimited (field depth) st s

/-- Leaves out a field and keeps the message. -/
def skipInto {σ : Type} (depth : Nat) (k : Key) (st : σ) (s : Bytes) : Except Fault (σ × Bytes) :=
  (skipField depth k s).map fun s => (st, s)

/-- The levels of nesting below a message. -/
def maxDepth : Nat := 100

def readMessage {σ : Type} (field : Nat → FieldReader σ) (empty : σ) (s : Bytes) :
    Except Fault σ :=
  (readFields (field maxDepth) 0 s.length empty s).map (·.1)

end Telemetry.Wire
