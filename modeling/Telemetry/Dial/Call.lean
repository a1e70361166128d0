import Telemetry.Dial
import Telemetry.Wire.Encode

/-! Calls over an open connection. The reply of a call is a message, which is held against the limit
of the connection before it is read. -/

namespace Telemetry

open Wire

/-- The kinds of status that a call ends with when its reply is not taken. -/
inductive StatusCode
  | outOfRange
  | internal
  deriving DecidableEq, Repr

def StatusCode.name : StatusCode → String
  | .outOfRange => "OutOfRange"
  | .internal => "Internal"

inductive CallFault
  | tooLong (fault : ReplyTooLong)
  | malformed (fault : Wire.Fault)
  deriving DecidableEq, Repr

namespace CallFault

def code : CallFault → StatusCode
  | .tooLong _ => .outOfRange
  | .malformed _ => .internal

def message : CallFault → String
  | .tooLong fault => fault.message
  | .malformed fault => fault.message

end CallFault

/-- What a call gives whose reply `decode` is to read. -/
def Connection.call {α : Type} (c : Connection) (decode : Bytes → Except Wire.Fault α)
    (reply : Bytes) : Except CallFault α :=
  match c.receive reply with
  | .error fault => .error (.tooLong fault)
  | .ok message => (decode message).mapError .malformed

/-! ## Messages of one text -/

namespace TextMessage

/-- A message whose only field is a text. It is left out if it is empty. -/
def encode (text : String) : Bytes := omitIf (text == "") (textField 1 text)

def readField (depth : Nat) : FieldReader String := fun k text s =>
  match k.number with
  | 1 => readTextField k.wireType s
  | _ => skipInto depth k text s

def decode (s : Bytes) : Except Wire.Fault String := readMessage readField "" s

end TextMessage

/-- A call whose reply is the message of a text. -/
def Connection.fetch (c : Connection) (text : String) : Except CallFault String :=
  c.call TextMessage.decode (TextMessage.encode text)

end Telemetry
