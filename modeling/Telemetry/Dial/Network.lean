import Telemetry.Proxy
import Telemetry.Tls.Material

/-! The network as a dialer meets it: which streams can be opened, what the peer at the other end
does, and how long each step takes. -/

namespace Telemetry

/-- The ways in which a stream fails. `other` is a reason in words. -/
inductive StreamFault
  | unreachable
  | refused
  | unknownHost
  | invalidServerName
  | other (reason : String)
  deriving DecidableEq, Repr

def StreamFault.message : StreamFault → String
  | .unreachable => "Network is unreachable (os error 101)"
  | .refused => "Connection refused (os error 111)"
  | .unknownHost => "failed to lookup address information: Temporary failure in name resolution"
  | .invalidServerName => "invalid dns name"
  | .other reason => reason

/-- How bytes are protected on the way. -/
inductive Transport
  | plaintext
  | tls (settings : TlsSettings)
  deriving DecidableEq, Repr

def Transport.isTls : Transport → Bool
  | .plaintext => false
  | .tls _ => true

/-! ## Server names

A server is named by a domain or by an address, for its certificate to be compared with. -/

namespace ServerName

def maxLength : Nat := 253

def maxLabelLength : Nat := 63

def isLabelChar (c : Char) : Bool := c.isAlphanum || c == '-' || c == '_'

/-- A part of a domain between two points. No hyphen stands at an end of it. -/
def isLabel (cs : List Char) : Bool :=
  !cs.isEmpty && cs.length ≤ maxLabelLength && cs.all isLabelChar && cs.head? != some '-' &&
    cs.getLast? != some '-'

/-- The parts of a domain. One point may stand at its end. -/
def labels (cs : List Char) : List (List Char) :=
  let parts := Text.fieldsAt '.' cs
  if parts.getLast? == some [] then parts.dropLast else parts

/-- The last part of a domain is not a number. -/
def isDomain (cs : List Char) : Bool :=
  cs.length ≤ maxLength && (labels cs).all isLabel &&
    ((labels cs).getLast?.getD []).any fun c => !c.isDigit

end ServerName

def isServerName (host : String) : Bool :=
  ServerName.isDomain host.toList || (IpAddress.parse? host.toList).isSome

/-! ## Steps and peers -/

/-- What a step leads to and after how many nanoseconds, unless it goes on for ever. -/
inductive Timed (α : Type)
  | after (time : Nat) (value : α)
  | never

/-- Why a channel is not set up: by a fault, whose causes go from the nearest one to the deepest
one, or because the time is over. -/
inductive ChannelFault
  | failed (causes : List String)
  | late
  deriving DecidableEq, Repr

/-- What a step leads to in the time that is left, and the time that is left behind it. -/
def Timed.within {α : Type} (left : Nat) : Timed α → Except ChannelFault (α × Nat)
  | .after time value => if time ≤ left then .ok (value, left - time) else .error .late
  | .never => .error .late

/-- How a stream goes on behind the bytes that have come over it. -/
inductive StreamEnd
  | closed
  | silent
  | failed (fault : StreamFault)
  deriving DecidableEq, Repr

/-- All that a proxy sends in answer to a request for a tunnel. -/
structure TunnelResponse where
  bytes : Bytes := []
  ending : StreamEnd := .closed
  deriving DecidableEq, Repr

structure Peer where
  /-- What comes of a request for a tunnel, with the time until as much of the response has been
  read as will be. -/
  tunnelResponse : String → Timed (Except StreamFault TunnelResponse) := fun _ => .after 0 (.ok {})
  /-- Whether small pieces can be sent without delay. -/
  noDelay : Except StreamFault Unit := .ok ()
  /-- How a channel to a host over a transport is set up, after the bytes that are there already. A
  failure is given by its causes. -/
  channel : Transport → String → Bytes → Timed (Except (List String) Unit)

/-- What opening a stream to a host and a port leads to. -/
structure Network where
  connect : String → Nat → Timed (Except StreamFault Peer)

/-- A network without any interface: no address is reached, and no name is found but the one that
every host has for itself. -/
def Network.offline : Network where
  connect host _ :=
    let host := Proxy.bareHost host.toList
    if (IpAddress.parse? host).isSome || Text.eqIgnoringCase host "localhost".toList then
      .after 0 (.error .unreachable)
    else .after 0 (.error .unknownHost)

end Telemetry
