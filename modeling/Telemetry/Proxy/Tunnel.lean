import Telemetry.Proxy
import Telemetry.Text.Bytes

/-! Tunnels: the request that asks a proxy for one, and the head of its response. Nothing after the
head is read, so that it is left for the connection that goes through the tunnel. -/

namespace Telemetry

inductive TunnelFault
  | refused (proxy target : String) (status : Nat)
  | malformed
  | headTooLarge
  | unexpectedEnd
  deriving DecidableEq, Repr

def TunnelFault.message : TunnelFault → String
  | .refused proxy target status =>
    "proxy " ++ proxy ++ " refused CONNECT to " ++ target ++ " with status "
      ++ String.ofList (Text.decimal status)
  | .malformed => "malformed proxy response"
  | .headTooLarge => "proxy response head too large"
  | .unexpectedEnd => "unexpected end of file"

/-- What callers tell faults apart by. -/
inductive TunnelFault.Kind
  | other
  | invalidData
  | unexpectedEnd
  deriving DecidableEq, Repr

def TunnelFault.kind : TunnelFault → Kind
  | .refused .. => .other
  | .malformed | .headTooLarge => .invalidData
  | .unexpectedEnd => .unexpectedEnd

namespace Tunnel

/-- The head of a request for a tunnel: two lines and an empty one. -/
def request (target : Address) : String :=
  let name := target.display
  "CONNECT " ++ name ++ " HTTP/1.1\r\nHost: " ++ name ++ "\r\n\r\n"

def maxHead : Nat := 8192

/-- The end of a head in reverse: line feed, carriage return, and both once more. -/
def reversedEnd : Bytes := [10, 13, 10, 13]

/-- Reads on after the bytes of a head, which are in reverse, until it ends. The head is given with
what follows it. -/
def readHeadFrom (head : Bytes) (length : Nat) (bs : Bytes) : Except TunnelFault (Bytes × Bytes) :=
  if reversedEnd.isPrefixOf head then .ok (head.reverse, bs)
  else if maxHead ≤ length then .error .headTooLarge
  else
    match bs with
    | [] => .error .unexpectedEnd
    | b :: bs => readHeadFrom (b :: head) (length + 1) bs
termination_by structural bs

def readHead (response : Bytes) : Except TunnelFault (Bytes × Bytes) := readHeadFrom [] 0 response

/-- The status in the first line of a head: its second word, after the version of the protocol. -/
def status? (head : Bytes) : Option Nat := do
  let line ← Text.ofUtf8? (head.takeWhile (· != 10))
  match Text.words line.toList with
  | version :: code :: _ =>
    if "HTTP/1.".toList.isPrefixOf version then Text.readNat? 65535 code else none
  | _ => none

def openStatus : Nat := 200

/-- What can be read through a tunnel to a target, if the response of a proxy opens it. -/
def accept (proxy : Proxy) (target : Address) (response : Bytes) : Except TunnelFault Bytes := do
  let (head, rest) ← readHead response
  match status? head with
  | none => .error .malformed
  | some status =>
    if status = openStatus then return rest
    else .error (.refused proxy.authority target.display status)

end Tunnel

end Telemetry
