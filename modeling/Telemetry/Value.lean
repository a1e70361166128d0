import Telemetry.Json.Reader

/-! Values as a target reports them: a tagged union of scalars, byte payloads, JSON texts and lists
of such values. A value is shown as a JSON document, for which the JSON texts in it are read. -/

namespace Telemetry

/-- A number in steps of a power of ten: `digits / 10 ^ precision`. -/
structure Decimal64 where
  digits : Int64 := 0
  precision : UInt32 := 0
  deriving DecidableEq, Inhabited

/-- A serialized message of a named type. -/
structure AnyMessage where
  typeUrl : String := ""
  value : Bytes := []
  deriving DecidableEq, Inhabited

/-- A reported value. `unset` is a value message of which no member is set. A float is the word
of a binary32 number. -/
inductive TypedValue
  | unset
  | string (v : String)
  | int (v : Int64)
  | uint (v : UInt64)
  | bool (v : Bool)
  | bytes (v : Bytes)
  | float (word : UInt32)
  | decimal (v : Decimal64)
  | leafList (elements : List TypedValue)
  | any (v : AnyMessage)
  | json (text : Bytes)
  | jsonIetf (text : Bytes)
  | ascii (v : String)
  | protoBytes (v : Bytes)
  deriving Inhabited

/-! ## Values with their JSON texts read -/

/-- A text inside a value that should be a JSON document and is none. -/
structure DecodeError where
  invalidJson ::
  fault : Json.SyntaxError
  deriving DecidableEq, Repr

def DecodeError.message (e : DecodeError) : String :=
  "Failed to parse JSON value: " ++ e.fault.message

/-- A value whose JSON text, if it is one, has been read. The elements of a list are kept as they
were reported. -/
inductive Decoded
  | ascii (v : String)
  | bool (v : Bool)
  | bytes (v : Bytes)
  | decimal (v : Decimal64)
  | float (word : UInt32)
  | int (v : Int64)
  | string (v : String)
  | uint (v : UInt64)
  | leafList (elements : List TypedValue)
  | protoBytes (v : Bytes)
  | any (v : AnyMessage)
  | json (doc : Json.Document)
  | null

open Json (Document)

/-- Reads a JSON text inside a value. -/
def readJson (text : Bytes) : Except DecodeError Document :=
  (Json.parse text).mapError .invalidJson

/-- Both JSON members carry a text, and nothing set is the same as null. -/
def TypedValue.decode : TypedValue → Except DecodeError Decoded
  | .unset => .ok .null
  | .string v => .ok (.string v)
  | .int v => .ok (.int v)
  | .uint v => .ok (.uint v)
  | .bool v => .ok (.bool v)
  | .bytes v => .ok (.bytes v)
  | .float w => .ok (.float w)
  | .decimal v => .ok (.decimal v)
  | .leafList es => .ok (.leafList es)
  | .any v => .ok (.any v)
  | .json text => (readJson text).map .json
  | .jsonIetf text => (readJson text).map .json
  | .ascii v => .ok (.ascii v)
  | .protoBytes v => .ok (.protoBytes v)

/-- A precision as a signed exponent of 32 bits. From 2^31 on it is negative. -/
def Decimal64.exponent (d : Decimal64) : Int := d.precision.toInt32.toInt

/-- The digits divided by the power of ten that the precision names. -/
def Decimal64.toBinary64 (d : Decimal64) : Binary64 :=
  (Binary64.ofInt d.digits.toInt).div (Binary64.pow (Binary64.ofNat 10) d.exponent)

/-- Bytes in a document are an array of their numbers. -/
def byteArray (bs : Bytes) : Document :=
  .array (bs.map fun b => .integer b.toNat)

def AnyMessage.document (v : AnyMessage) : Document :=
  .object [("type_url", .string v.typeUrl), ("value", byteArray v.value)]

mutual

/-- The document of a value. It fails with the first text in the value that is no document. -/
def TypedValue.toJson : TypedValue → Except DecodeError Document
  | .unset => .ok .null
  | .string v => .ok (.string v)
  | .int v => .ok (.integer v.toInt)
  | .uint v => .ok (.integer v.toNat)
  | .bool v => .ok (.bool v)
  | .bytes v => .ok (byteArray v)
  | .float w => .ok (.real (.ofBinary32 w))
  | .decimal v => .ok (.real v.toBinary64)
  | .leafList es => (elementsToJson es).map .array
  | .any v => .ok v.document
  | .json text => readJson text
  | .jsonIetf text => readJson text
  | .ascii v => .ok (.string v)
  | .protoBytes v => .ok (byteArray v)

/-- The documents of the elements of a list. -/
def elementsToJson : List TypedValue → Except DecodeError (List Document)
  | [] => .ok []
  | v :: vs =>
    match v.toJson with
    | .error e => .error e
    | .ok doc => (elementsToJson vs).map (doc :: ·)

end

/-- The document of a value that has been read. -/
def Decoded.toJson : Decoded → Except DecodeError Document
  | .ascii v => .ok (.string v)
  | .bool v => .ok (.bool v)
  | .bytes v => .ok (byteArray v)
  | .decimal v => .ok (.real v.toBinary64)
  | .float w => .ok (.real (.ofBinary32 w))
  | .int v => .ok (.integer v.toInt)
  | .string v => .ok (.string v)
  | .uint v => .ok (.integer v.toNat)
  | .leafList es => (elementsToJson es).map .array
  | .protoBytes v => .ok (byteArray v)
  | .any v => .ok v.document
  | .json doc => .ok doc
  | .null => .ok .null

end Telemetry
