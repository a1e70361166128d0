import Telemetry.Notification
import Telemetry.Wire.Field

/-! Writing the messages of the schema: fields by increasing numbers, scalars that have their
default left out. A message and the member of a value that is set are always written. -/

namespace Telemetry

namespace Wire

def varintField (number : Nat) (n : UInt64) : Bytes :=
  Key.encode ⟨number, .varint⟩ ++ varint n

def delimitedField (number : Nat) (body : Bytes) : Bytes :=
  Key.encode ⟨number, .delimited⟩ ++ varint (UInt64.ofNat body.length) ++ body

/-- The four bytes of a word, the lowest first. -/
def littleEndian (w : UInt32) : Bytes :=
  [w.toUInt8, (w >>> 8).toUInt8, (w >>> 16).toUInt8, (w >>> 24).toUInt8]

def fixed32Field (number : Nat) (w : UInt32) : Bytes :=
  Key.encode ⟨number, .fixed32⟩ ++ littleEndian w

def textField (number : Nat) (s : String) : Bytes := delimitedField number (Text.utf8 s)

/-- Nothing for the default of a scalar. -/
def omitIf (isDefault : Bool) (field : Bytes) : Bytes := if isDefault then [] else field

/-- Nothing for an absent message. -/
def optionalField (number : Nat) : Option Bytes → Bytes
  | none => []
  | some body => delimitedField number body

def repeatedField (number : Nat) (bodies : List Bytes) : Bytes :=
  bodies.flatMap (delimitedField number)

def boolWord (b : Bool) : UInt64 := if b then 1 else 0

end Wire

open Wire

/-- A key and its value, without whichever of them is empty. -/
def encodeKeyEntry (e : String × String) : Bytes :=
  omitIf (e.1 == "") (textField 1 e.1) ++ omitIf (e.2 == "") (textField 2 e.2)

/-- An element with the entries of its map in the given order. -/
def PathElem.encodeWith (name : String) (entries : List (String × String)) : Bytes :=
  omitIf (name == "") (textField 1 name) ++ repeatedField 2 (entries.map encodeKeyEntry)

def PathElem.encode (e : PathElem) : Bytes := PathElem.encodeWith e.name e.keys.entries

/-- A path with the bytes of its elements. -/
def Path.encodeWith (p : Path) (elems : List Bytes) : Bytes :=
  omitIf (p.origin == "") (textField 2 p.origin)
    ++ repeatedField 3 elems
    ++ omitIf (p.target == "") (textField 4 p.target)

def Path.encode (p : Path) : Bytes := p.encodeWith (p.elems.map PathElem.encode)

def Decimal64.encode (d : Decimal64) : Bytes :=
  omitIf (d.digits == 0) (varintField 1 d.digits.toUInt64)
    ++ omitIf (d.precision == 0) (varintField 2 d.precision.toUInt64)

def AnyMessage.encode (a : AnyMessage) : Bytes :=
  omitIf (a.typeUrl == "") (textField 1 a.typeUrl)
    ++ omitIf (a.value == []) (delimitedField 2 a.value)

mutual

def TypedValue.encode : TypedValue → Bytes
  | .unset => []
  | .string v => textField 1 v
  | .int v => varintField 2 v.toUInt64
  | .uint v => varintField 3 v
  | .bool v => varintField 4 (boolWord v)
  | .bytes v => delimitedField 5 v
  | .float w => fixed32Field 6 w
  | .decimal v => delimitedField 7 v.encode
  | .leafList es => delimitedField 8 (encodeElements es)
  | .any v => delimitedField 9 v.encode
  | .json text => delimitedField 10 text
  | .jsonIetf text => delimitedField 11 text
  | .ascii v => textField 12 v
  | .protoBytes v => delimitedField 13 v

def encodeElements : List TypedValue → Bytes
  | [] => []
  | v :: vs => delimitedField 1 v.encode ++ encodeElements vs

end

/-- An update with the bytes of its path. -/
def Update.encodeWith (u : Update) (path : Option Bytes) : Bytes :=
  optionalField 1 path
    ++ optionalField 3 (u.value.map TypedValue.encode)
    ++ omitIf (u.duplicates == 0) (varintField 4 u.duplicates.toUInt64)

def Update.encode (u : Update) : Bytes := u.encodeWith (u.path.map Path.encode)

/-- A notification with the bytes of its common path, of its updates and of its deletes. -/
def Notification.encodeWith (m : Notification) (base : Option Bytes)
    (updates deletes : List Bytes) : Bytes :=
  omitIf (m.timestamp == 0) (varintField 1 m.timestamp.toUInt64)
    ++ optionalField 2 base
    ++ repeatedField 4 updates
    ++ repeatedField 5 deletes
    ++ omitIf (!m.atomic) (varintField 6 (boolWord m.atomic))

def Notification.encode (m : Notification) : Bytes :=
  m.encodeWith (m.base.map Path.encode) (m.updates.map Update.encode) (m.deletes.map Path.encode)

end Telemetry
