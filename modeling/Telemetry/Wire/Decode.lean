import Telemetry.Notification
import Telemetry.Wire.Field

/-! Reading the messages of the schema. A scalar field that comes again replaces what was read
before, a repeated one appends to it, and a message is merged into it. -/

namespace Telemetry

open Wire

/-- One key of a path element with its value. -/
structure KeyEntry where
  key : String := ""
  value : String := ""

def KeyEntry.readField (depth : Nat) : FieldReader KeyEntry := fun k e s =>
  match k.number with
  | 1 => (readTextField k.wireType s).map fun (t, s) => ({ e with key := t }, s)
  | 2 => (readTextField k.wireType s).map fun (t, s) => ({ e with value := t }, s)
  | _ => skipInto depth k e s

/-- An entry of a map. Its shape is not checked: a length is read in any case. -/
def readKeyEntry (depth : Nat) (m : KeyMap) (s : Bytes) : Except Fault (KeyMap × Bytes) :=
  match depth with
  | 0 => fault .tooDeep
  | depth + 1 =>
    (readDelimited (KeyEntry.readField depth) {} s).map fun (e, s) => (m.insert e.key e.value, s)

def PathElem.readField (depth : Nat) : FieldReader PathElem := fun k e s =>
  match k.number with
  | 1 => inField "PathElem" "name" <|
    (readTextField k.wireType s).map fun (t, s) => ({ e with name := t }, s)
  | 2 => inField "PathElem" "key" <|
    (readKeyEntry depth e.keys s).map fun (m, s) => ({ e with keys := m }, s)
  | _ => skipInto depth k e s

def Path.readField (depth : Nat) : FieldReader Path := fun k p s =>
  match k.number with
  | 2 => inField "Path" "origin" <|
    (readTextField k.wireType s).map fun (t, s) => ({ p with origin := t }, s)
  | 3 => inField "Path" "elem" <|
    (readSubmessage depth PathElem.readField k.wireType {} s).map fun (e, s) =>
      ({ p with elems := p.elems ++ [e] }, s)
  | 4 => inField "Path" "target" <|
    (readTextField k.wireType s).map fun (t, s) => ({ p with target := t }, s)
  | _ => skipInto depth k p s

def Decimal64.readField (depth : Nat) : FieldReader Decimal64 := fun k d s =>
  match k.number with
  | 1 => inField "Decimal64" "digits" <|
    (readVarintField k.wireType s).map fun (n, s) => ({ d with digits := n.toInt64 }, s)
  | 2 => inField "Decimal64" "precision" <|
    (readVarintField k.wireType s).map fun (n, s) => ({ d with precision := n.toUInt32 }, s)
  | _ => skipInto depth k d s

def AnyMessage.readField (depth : Nat) : FieldReader AnyMessage := fun k a s =>
  match k.number with
  | 1 => inField "Any" "type_url" <|
    (readTextField k.wireType s).map fun (t, s) => ({ a with typeUrl := t }, s)
  | 2 => inField "Any" "value" <|
    (readBytesField k.wireType s).map fun (bs, s) => ({ a with value := bs }, s)
  | _ => skipInto depth k a s

/-- What a decimal in a field is merged into: the decimal read so far, if the value is one. -/
def TypedValue.asDecimal : TypedValue → Decimal64
  | .decimal d => d
  | _ => {}

def TypedValue.asLeafList : TypedValue → List TypedValue
  | .leafList es => es
  | _ => []

def TypedValue.asAny : TypedValue → AnyMessage
  | .any a => a
  | _ => {}

/-- The elements of a list, each of which `element` reads. -/
def readElements (element : Nat → FieldReader TypedValue) (depth : Nat) :
    FieldReader (List TypedValue) := fun k es s =>
  match k.number with
  | 1 => inField "ScalarArray" "element" <|
    (readSubmessage depth element k.wireType .unset s).map fun (v, s) => (es ++ [v], s)
  | _ => skipInto depth k es s

/-- The member of a value with the number of a field. A message is merged into one of the same
member, and all else replaces what was set. `elements` reads the fields of a list. -/
def readMember (elements : Nat → FieldReader (List TypedValue)) (depth : Nat) :
    FieldReader TypedValue := fun k v s =>
  let member (r : Except Fault (TypedValue × Bytes)) := inField "TypedValue" "value" r
  match k.number with
  | 1 => member <| (readTextField k.wireType s).map fun (t, s) => (.string t, s)
  | 2 => member <| (readVarintField k.wireType s).map fun (n, s) => (.int n.toInt64, s)
  | 3 => member <| (readVarintField k.wireType s).map fun (n, s) => (.uint n, s)
  | 4 => member <| (readVarintField k.wireType s).map fun (n, s) => (.bool (n != 0), s)
  | 5 => member <| (readBytesField k.wireType s).map fun (bs, s) => (.bytes bs, s)
  | 6 => member <| (readFixed32Field k.wireType s).map fun (w, s) => (.float w, s)
  | 7 => member <| (readSubmessage depth Decimal64.readField k.wireType v.asDecimal s).map
      fun (d, s) => (.decimal d, s)
  | 8 => member <| (readSubmessage depth elements k.wireType v.asLeafList s).map
      fun (es, s) => (.leafList es, s)
  | 9 => member <| (readSubmessage depth AnyMessage.readField k.wireType v.asAny s).map
      fun (a, s) => (.any a, s)
  | 10 => member <| (readBytesField k.wireType s).map fun (bs, s) => (.json bs, s)
  | 11 => member <| (readBytesField k.wireType s).map fun (bs, s) => (.jsonIetf bs, s)
  | 12 => member <| (readTextField k.wireType s).map fun (t, s) => (.ascii t, s)
  | 13 => member <| (readBytesField k.wireType s).map fun (bs, s) => (.protoBytes bs, s)
  | _ => skipInto depth k v s

/-- The fields of a value. A list in it lies one level deeper, and the values of the list two. -/
def TypedValue.readField : (depth : Nat) → FieldReader TypedValue
  | 0 => readMember (fun _ _ _ _ => fault .tooDeep) 0
  | 1 => readMember (readElements fun _ _ _ _ => fault .tooDeep) 1
  | depth + 2 => readMember (readElements fun _ => TypedValue.readField depth) (depth + 2)

def Update.readField (depth : Nat) : FieldReader Update := fun k u s =>
  match k.number with
  | 1 => inField "Update" "path" <|
    (readSubmessage depth Path.readField k.wireType (u.path.getD {}) s).map fun (p, s) =>
      ({ u with path := some p }, s)
  | 3 => inField "Update" "val" <|
    (readSubmessage depth TypedValue.readField k.wireType (u.value.getD .unset) s).map
      fun (v, s) => ({ u with value := some v }, s)
  | 4 => inField "Update" "duplicates" <|
    (readVarintField k.wireType s).map fun (n, s) => ({ u with duplicates := n.toUInt32 }, s)
  | _ => skipInto depth k u s

def Notification.readField (depth : Nat) : FieldReader Notification := fun k m s =>
  match k.number with
  | 1 => inField "Notification" "timestamp" <|
    (readVarintField k.wireType s).map fun (n, s) => ({ m with timestamp := n.toInt64 }, s)
  | 2 => inField "Notification" "prefix" <|
    (readSubmessage depth Path.readField k.wireType (m.base.getD {}) s).map fun (p, s) =>
      ({ m with base := some p }, s)
  | 4 => inField "Notification" "update" <|
    (readSubmessage depth Update.readField k.wireType {} s).map fun (u, s) =>
      ({ m with updates := m.updates ++ [u] }, s)
  | 5 => inField "Notification" "delete" <|
    (readSubmessage depth Path.readField k.wireType {} s).map fun (p, s) =>
      ({ m with deletes := m.deletes ++ [p] }, s)
  | 6 => inField "Notification" "atomic" <|
    (readVarintField k.wireType s).map fun (n, s) => ({ m with atomic := n != 0 }, s)
  | _ => skipInto depth k m s

def Path.decode (s : Bytes) : Except Fault Path := readMessage Path.readField {} s

/-- The value message of some bytes. -/
def TypedValue.ofWire (s : Bytes) : Except Fault TypedValue :=
  readMessage TypedValue.readField .unset s

def Notification.decode (s : Bytes) : Except Fault Notification :=
  readMessage Notification.readField {} s

end Telemetry
