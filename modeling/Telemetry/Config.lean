import Telemetry.Config.Fault
import Telemetry.Log
import Telemetry.Text.Bytes

/-! The settings of one run: how to reach the targets, and what to send to them. -/

namespace Telemetry

/-! ## Credentials

A username and a password, as the metadata of a request carries them. The password is
sensitive, and what is sensitive is never shown. -/

/-- Bytes that a metadata value may hold: a tab, and all but the control characters. -/
def isMetadataByte (b : UInt8) : Bool := b == 9 || (32 ≤ b && b != 127)

structure MetadataValue where
  bytes : Bytes
  isSensitive : Bool := false
  deriving DecidableEq, Repr

def MetadataValue.ofText? (text : String) : Option MetadataValue :=
  let bytes := Text.utf8 text
  if bytes.all isMetadataByte then some { bytes := bytes } else none

def MetadataValue.hexDigit (n : Nat) : Char :=
  Char.ofNat (if n < 10 then '0'.toNat + n else 'a'.toNat + (n - 10))

/-- A byte as it is shown. Quotes are escaped and backslashes are not. -/
def MetadataValue.displayByte (b : UInt8) : List Char :=
  if b = 34 then ['\\', '"']
  else if b = 9 || (32 ≤ b && b < 127) then [Char.ofNat b.toNat]
  else if b < 16 then ['\\', 'x', hexDigit b.toNat]
  else ['\\', 'x', hexDigit (b.toNat / 16), hexDigit (b.toNat % 16)]

/-- What is shown in place of a sensitive value. -/
def Credentials.hidden : String := "Sensitive"

def MetadataValue.display (v : MetadataValue) : String :=
  if v.isSensitive then Credentials.hidden
  else "\"" ++ String.ofList (v.bytes.flatMap displayByte) ++ "\""

structure Credentials where
  username : MetadataValue
  password : MetadataValue
  deriving DecidableEq, Repr

namespace Credentials

/-- Credentials of two texts that can be sent. The username is looked at first. -/
def make (username password : String) : Except ConfigFault Credentials :=
  match MetadataValue.ofText? username, MetadataValue.ofText? password with
  | none, _ => .error (.credentials .username)
  | some _, none => .error (.credentials .password)
  | some u, some p => .ok ⟨u, { p with isSensitive := true }⟩

def display (c : Credentials) : String :=
  Text.showRecord "Credentials"
    [("username", c.username.display), ("password", c.password.display)]

end Credentials

/-! ## Settings -/

structure Config where
  timeout : String := "30s"
  /-- In units of 2^20 bytes. Zero keeps the limit of the transport. -/
  maxMessageSize : Nat := 512
  proxyFromEnvironment : Bool := false
  skipVerify : Bool := false
  insecure : Bool := false
  /-- The path of the client certificate. Empty for none, as the two paths below. -/
  certificatePath : String := ""
  keyPath : String := ""
  authorityPath : String := ""
  credentials : Option Credentials := none
  deriving DecidableEq, Repr

namespace Config

/-- The largest number of bytes that can be counted. -/
def maxCount : Nat := Nat.pow 2 64 - 1

def dialTimeout (c : Config) : Except ConfigFault Duration :=
  (Duration.parse (Text.trim c.timeout.toList)).mapError (.timeout c.timeout)

/-- The limit of a received message in bytes, if it is not that of the transport. -/
def messageLimit (c : Config) : Option Nat :=
  if c.maxMessageSize = 0 then none else some (min (c.maxMessageSize * Nat.pow 2 20) maxCount)

/-- The settings in one line. -/
def display (isShown : Char → Bool) (c : Config) : String :=
  let credentials :=
    match c.credentials with
    | none => "None"
    | some credentials => "Some(" ++ credentials.display ++ ")"
  Text.showRecord "ConnectionConfig"
    [("timeout", Text.quoted isShown c.timeout),
      ("max_msg_size", String.ofList (Text.decimal c.maxMessageSize)),
      ("proxy_from_env", Text.showBool c.proxyFromEnvironment),
      ("skip_verify", Text.showBool c.skipVerify), ("insecure", Text.showBool c.insecure),
      ("tls_cert", Text.quoted isShown c.certificatePath),
      ("tls_key", Text.quoted isShown c.keyPath), ("tls_ca", Text.quoted isShown c.authorityPath),
      ("credentials", credentials)]

end Config

end Telemetry
