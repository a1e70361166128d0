import Telemetry.Address
import Telemetry.Proxy.Exclusions

/-! Proxies that are named by the environment: which one a target is reached through, if any. -/

namespace Telemetry

/-- The values of the variables that are set. -/
abbrev Environment := String → Option String

/-- A proxy that opens tunnels. The host keeps its brackets. -/
structure Proxy where
  host : List Char
  port : Nat
  deriving DecidableEq, Repr

namespace Proxy

def defaultPort : Nat := 80

def authorityChars (p : Proxy) : List Char := p.host ++ ':' :: Text.decimal p.port

/-- `host:port`. -/
def authority (p : Proxy) : String := String.ofList p.authorityChars

/-- A text holds `://` somewhere. -/
def namesScheme : List Char → Bool
  | [] => false
  | c :: cs => "://".toList.isPrefixOf (c :: cs) || namesScheme cs

/-- Reads the name of a proxy that has no blanks around it. -/
def read (cs : List Char) : Except ProxyFault Proxy := do
  let text := if namesScheme cs then cs else "http://".toList ++ cs
  let uri ← (Uri.parse text).mapError .uri
  if uri.scheme ≠ some .http then .error .unsupportedScheme
  else
    match uri.authority with
    | none => .error .missingHost
    | some a =>
      if a.text.contains '@' then .error .credentials
      else return ⟨a.host, a.port?.getD defaultPort⟩

/-- Reads the name of a proxy. A failure names the text as it was given. -/
def parse (value : String) : Except ConfigFault Proxy :=
  (read (Text.trim value.toList)).mapError (.proxy value)

def proxyVariables : List String := ["HTTPS_PROXY", "https_proxy"]

def exclusionVariables : List String := ["NO_PROXY", "no_proxy"]

/-- The value of the first variable that is not blank. -/
def firstSet (env : Environment) (names : List String) : Option String :=
  (names.filterMap env).find? fun value => !(Text.trim value.toList).isEmpty

/-- A host that is always reached directly. -/
def isLoopback (host : List Char) : Bool :=
  Text.eqIgnoringCase host "localhost".toList ||
    ((IpAddress.parse? host).map IpAddress.isLoopback).getD false

/-- The host of a URI as it is compared with the exclusions: without the brackets around it. -/
def bareHost (host : List Char) : List Char :=
  let isBracket (c : Char) : Bool := c == '[' || c == ']'
  if host.head? == some '[' then
    ((host.dropWhile isBracket).reverse.dropWhile isBracket).reverse
  else host

/-- A connection to a host goes through the proxy if the name of the proxy is a URI again, and if
no exclusion covers the host. -/
def intercepts (p : Proxy) (exclusions : List Exclusion) (host : List Char) : Bool :=
  (Uri.parse ("http://".toList ++ p.authorityChars)).toOption.isSome &&
    !exclusions.any (Exclusion.covers (bareHost host))

def exclusionsOf (env : Environment) : List Exclusion :=
  Exclusion.ofList ((firstSet env exclusionVariables).getD "").toList

def resolve (target : Address) (env : Environment) : Except ConfigFault (Option Proxy) :=
  match firstSet env proxyVariables with
  | none => .ok none
  | some value =>
    if isLoopback target.host.toList then .ok none
    else do
      let proxy ← parse value
      let uri ← (Uri.parse ("https://".toList ++ target.displayChars)).mapError fun fault =>
        .address target.display (.uri fault)
      match uri.authority with
      | none => return none
      | some a => return if proxy.intercepts (exclusionsOf env) a.host then some proxy else none

/-- A target that is not reached directly is compared with the exclusions by the host of its URI. -/
theorem resolve_eq {target : Address} {env : Environment} {value : String} {proxy : Proxy}
    {scheme : Option Scheme} {a : Authority} (hv : firstSet env proxyVariables = some value)
    (hl : isLoopback target.host.toList = false) (hp : parse value = .ok proxy)
    (hu : Uri.parse ("https://".toList ++ target.displayChars) = .ok ⟨scheme, some a⟩) :
    resolve target env =
      .ok (if proxy.intercepts (exclusionsOf env) a.host then some proxy else none) := by
  simp only [resolve, hv, hl, hp, hu]
  rfl

end Proxy

end Telemetry
