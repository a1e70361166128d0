import Telemetry.Dial.Network
import Telemetry.Proxy.Tunnel

/-! Dialing: one dialer is made of the settings, and opens connections to targets. Nothing is sent
before the settings and the address have been checked, and no attempt goes on behind the timeout. -/

namespace Telemetry

/-- Why a connection is not made. -/
inductive DialFault
  | config (fault : ConfigFault)
  | tls (fault : TlsFault)
  | endpoint (address : String) (fault : UriFault)
  /-- The causes go from the nearest one to the deepest one. -/
  | connection (address : String) (causes : List String)
  | timeout (address : String) (after : Duration)
  deriving DecidableEq, Repr

namespace DialFault

def aborts : DialFault → Bool
  | .config fault => fault.aborts
  | _ => false

/-- The fault with its nearest cause. -/
def message : DialFault → String
  | .config fault => fault.message
  | .tls fault => "Failed to build the TLS configuration: " ++ fault.message
  | .endpoint address _ => "Invalid endpoint '" ++ address ++ "': invalid URI"
  | .connection address _ => "Failed to connect to '" ++ address ++ "': transport error"
  | .timeout address after =>
    "Timed out after " ++ after.text ++ " connecting to '" ++ address ++ "'"

/-- The nearest cause, which the message holds, and the causes below it. -/
def causes : DialFault → List String
  | .config (.timeout _ fault) => [fault.message]
  | .config (.credentials _) => ["failed to parse metadata value"]
  | .config _ => []
  | .tls fault => [fault.message]
  | .endpoint _ fault => ["invalid URI", fault.message]
  | .connection _ causes => "transport error" :: causes
  | .timeout _ _ => []

end DialFault

structure Dialer where
  config : Config
  timeout : Duration
  transport : Transport
  warnings : List LoadFault
  deriving DecidableEq, Repr

structure Connection where
  address : Address
  isTls : Bool
  messageLimit : Option Nat
  credentials : Option Credentials
  deriving DecidableEq, Repr

/-- What came of dialing a target, what was reported, and the requests that a proxy was sent. -/
structure DialReport where
  result : Except DialFault Connection
  logs : List LogRecord := []
  tunnelRequests : List String := []

namespace Dialer

/-- The transport of the settings. Without security no file is read. -/
def resolveTransport (files : Files) (config : Config) :
    Except TlsFault (Transport × List LoadFault) × List LogRecord :=
  if config.insecure then (.ok (.plaintext, []), [])
  else
    let loaded := TlsMaterial.load files config
    ((loaded.material.settings config.skipVerify).map fun s => (.tls s, loaded.warnings),
      loaded.logs)

/-- Makes a dialer, with what is reported. The timeout is looked at first. -/
def ofConfig (files : Files) (config : Config) : Except DialFault Dialer × List LogRecord :=
  match config.dialTimeout with
  | .error fault => (.error (.config fault), [])
  | .ok timeout =>
    let (transport, logs) := resolveTransport files config
    match transport with
    | .error fault => (.error (.tls fault), logs)
    | .ok (transport, warnings) => (.ok ⟨config, timeout, transport, warnings⟩, logs)

/-- The proxy of a target, unless the environment is to be ignored. -/
def proxyFor (d : Dialer) (env : Environment) (target : Address) :
    Except ConfigFault (Option Proxy) :=
  if d.config.proxyFromEnvironment then Proxy.resolve target env else .ok none

def dialing (d : Dialer) (target : Address) (proxy : Option Proxy) : LogRecord where
  level := .debug
  message := "dialing target"
  fields :=
    [("address", target.display), ("tls", Text.showBool d.transport.isTls),
      ("proxied", Text.showBool proxy.isSome), ("timeout", d.timeout.text)]

def connected (d : Dialer) (target : Address) : LogRecord where
  level := .info
  message := "connected"
  fields := [("address", target.display), ("tls", Text.showBool d.transport.isTls)]

end Dialer

/-! ## Setting up a channel -/

/-- A fault below the channel is seen twice: as that of the stream and as its own cause. -/
def ChannelFault.ofStream (message : String) : ChannelFault := .failed [message, message]

/-- An open stream, the bytes that have come over it and have not been read, and the nanoseconds
that are left of the attempt. -/
structure OpenStream where
  peer : Peer
  unread : Bytes := []
  left : Nat

/-- Opens a stream in the time that is left. -/
def Network.open (net : Network) (host : String) (port left : Nat) :
    Except ChannelFault OpenStream := do
  let (result, left) ← (net.connect host port).within left
  match result with
  | .error fault => .error (.ofStream fault.message)
  | .ok peer => return { peer := peer, left := left }

/-- What comes of a response that opens no tunnel. For what is missing at its end there may be
another reason than its end, and it may be waited for in vain. -/
def StreamEnd.channelFault (ending : StreamEnd) (fault : TunnelFault) : ChannelFault :=
  match fault, ending with
  | .unexpectedEnd, .silent => .late
  | .unexpectedEnd, .failed fault => .ofStream fault.message
  | fault, _ => .ofStream fault.message

namespace OpenStream

/-- Asks the proxy at the other end for a tunnel to a target. -/
def tunnel (s : OpenStream) (proxy : Proxy) (target : Address) :
    Except ChannelFault OpenStream := do
  let (result, left) ← (s.peer.tunnelResponse (Tunnel.request target)).within s.left
  match result with
  | .error fault => .error (.ofStream fault.message)
  | .ok response =>
    match Tunnel.accept proxy target response.bytes with
    | .error fault => .error (response.ending.channelFault fault)
    | .ok rest => return { s with unread := rest, left := left }

/-- Sets up a channel to a host. Over TLS the host has to be the name of a server. -/
def setUp (s : OpenStream) (transport : Transport) (host : String) : Except ChannelFault Unit := do
  match s.peer.noDelay with
  | .error fault => .error (.ofStream fault.message)
  | .ok _ =>
    if transport.isTls && !isServerName host then
      .error (.ofStream StreamFault.invalidServerName.message)
    else
      let (result, _) ← (s.peer.channel transport host s.unread).within s.left
      result.mapError .failed

end OpenStream

namespace Dialer

/-- How the setting up of a channel to a target ends, through a proxy if there is one, and the
requests for tunnels on the way. -/
def establish (d : Dialer) (net : Network) (target : Address) (proxy : Option Proxy) :
    Except ChannelFault Unit × List String :=
  match proxy with
  | none =>
    ((net.open target.host target.port.toNat d.timeout.total).bind fun s =>
      s.setUp d.transport target.host, [])
  | some proxy =>
    match net.open (String.ofList proxy.host) proxy.port d.timeout.total with
    | .error fault => (.error fault, [])
    | .ok s =>
      ((s.tunnel proxy target).bind fun s => s.setUp d.transport target.host,
        [Tunnel.request target])

def connection (d : Dialer) (target : Address) : Connection where
  address := target
  isTls := d.transport.isTls
  messageLimit := d.config.messageLimit
  credentials := d.config.credentials

/-- Dials a target whose proxy is known. The address has to be the authority of a URI. -/
def dialTarget (d : Dialer) (net : Network) (target : Address) (proxy : Option Proxy) :
    DialReport :=
  let start := d.dialing target proxy
  let name := target.display
  match Uri.parse ("http://".toList ++ target.displayChars) with
  | .error fault => ⟨.error (.endpoint name fault), [start], []⟩
  | .ok _ =>
    match d.establish net target proxy with
    | (.ok _, requests) => ⟨.ok (d.connection target), [start, d.connected target], requests⟩
    | (.error (.failed causes), requests) => ⟨.error (.connection name causes), [start], requests⟩
    | (.error .late, requests) => ⟨.error (.timeout name d.timeout), [start], requests⟩

def dial (d : Dialer) (env : Environment) (net : Network) (address : String) : DialReport :=
  match Address.parse address with
  | .error fault => ⟨.error (.config fault), [], []⟩
  | .ok target =>
    match d.proxyFor env target with
    | .error fault => ⟨.error (.config fault), [], []⟩
    | .ok proxy => d.dialTarget net target proxy

/-- Dials one target with a dialer of its own. -/
def dialOnce (files : Files) (env : Environment) (net : Network) (config : Config)
    (address : String) : DialReport :=
  match ofConfig files config with
  | (.error fault, logs) => ⟨.error fault, logs, []⟩
  | (.ok d, logs) =>
    let report := d.dial env net address
    { report with logs := logs ++ report.logs }

end Dialer

namespace Connection

def metadata (c : Connection) : List (String × MetadataValue) :=
  match c.credentials with
  | none => []
  | some credentials =>
    [("username", credentials.username), ("password", credentials.password)]

/-- The limit of the transport, in bytes. -/
def defaultLimit : Nat := 4 * Nat.pow 2 20

def limit (c : Connection) : Nat := c.messageLimit.getD defaultLimit

end Connection

structure ReplyTooLong where
  found : Nat
  limit : Nat
  deriving DecidableEq, Repr

def ReplyTooLong.message (f : ReplyTooLong) : String :=
  "Error, decoded message length too large: found " ++ String.ofList (Text.decimal f.found)
    ++ " bytes, the limit is: " ++ String.ofList (Text.decimal f.limit) ++ " bytes"

namespace Connection

def receive (c : Connection) (reply : Bytes) : Except ReplyTooLong Bytes :=
  if reply.length ≤ c.limit then .ok reply else .error ⟨reply.length, c.limit⟩

end Connection

end Telemetry
