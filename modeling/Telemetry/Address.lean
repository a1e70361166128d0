import Telemetry.Config.Fault

/-! Addresses of targets: a host and a port. An address is written `host`, `host:port`, or with the
host in brackets; a host with colons that is not in brackets is written without a port. -/

namespace Telemetry

/-- The host is a name or an IP address, without brackets. -/
structure Address where
  host : String
  port : UInt16
  deriving DecidableEq, Repr

namespace Address

def defaultPort : UInt16 := 57400

/-- The host of an address, and the text of its port if there is one. -/
def split (cs : List Char) : Except AddressFault (List Char × Option (List Char)) :=
  match cs with
  | '[' :: rest =>
    match Text.splitFirst ']' rest with
    | none => .error .missingBracket
    | some (host, []) => .ok (host, none)
    | some (host, ':' :: port) => .ok (host, some port)
    | some (_, _ :: _) => .error .textAfterBracket
  | cs =>
    if 1 < cs.count ':' then .ok (cs, none)
    else
      match Text.splitFirst ':' cs with
      | some (host, port) => .ok (host, some port)
      | none => .ok (cs, none)

/-- Reads an address that has no blanks around it. -/
def read (cs : List Char) : Except AddressFault Address := do
  if cs.isEmpty then .error .emptyAddress
  else
    let (host, port) ← split cs
    if host.isEmpty then .error .emptyHost
    else
      match port with
      | none => return ⟨String.ofList host, defaultPort⟩
      | some digits =>
        match Text.readPort? digits with
        | none => .error .invalidPort
        | some n => return ⟨String.ofList host, UInt16.ofNat n⟩

/-- Reads an address. A failure names the text as it was given. -/
def parse (text : String) : Except ConfigFault Address :=
  (read (Text.trim text.toList)).mapError (.address text)

/-- `host:port`, with brackets around a host that has colons. -/
def displayChars (a : Address) : List Char :=
  let host := a.host.toList
  let port := ':' :: Text.decimal a.port.toNat
  if host.contains ':' then '[' :: host ++ ']' :: port else host ++ port

def display (a : Address) : String := String.ofList a.displayChars

end Address

end Telemetry
