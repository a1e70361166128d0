import Telemetry.Config
import Telemetry.Tls.Identity
import Telemetry.Tls.TrustPool

/-! What secures a connection: the identity of the client and the trust pool, and the settings of
the secured connection that are made of them. -/

namespace Telemetry

structure TlsMaterial where
  identity : Option Identity := none
  roots : TrustPool := {}
  deriving DecidableEq, Repr

/-- How the certificate of a server is checked. -/
inductive Verifier
  | acceptAll
  | trust (roots : TrustPool)
  deriving DecidableEq, Repr

/-- The settings of secured connections. The protocols are offered to the server in order. -/
structure TlsSettings where
  verifier : Verifier
  identity : Option Identity
  protocols : List String
  deriving DecidableEq, Repr

inductive TlsFault
  | certificate (fault : CertificateFault)
  | keyMismatch
  | invalidKey
  deriving DecidableEq, Repr

def TlsFault.message : TlsFault → String
  | .certificate fault => fault.message
  | .keyMismatch => "keys may not be consistent: KeyMismatch"
  | .invalidKey => "unexpected error: failed to parse private key as RSA, ECDSA, or EdDSA"

/-- The material of some settings, with the faults that were met and what is reported of them. -/
structure TlsMaterial.Loaded where
  material : TlsMaterial
  warnings : List LoadFault
  logs : List LogRecord
  deriving DecidableEq, Repr

namespace TlsMaterial

def warning (message : String) (fault : LoadFault) : LogRecord where
  level := .warning
  message := message
  fields := [("error", fault.message)]

/-- A value, or another one in place of a fault that is reported. -/
def orElse {α : Type} (fallback : α) (message : String) :
    Except LoadFault α → α × List LoadFault × List LogRecord
  | .ok x => (x, [], [])
  | .error fault => (fallback, [fault], [warning message fault])

/-- Loads the identity and the trust pool. In place of what cannot be loaded there is no identity
and an empty pool. -/
def load (files : Files) (config : Config) : Loaded :=
  let (identity, identityFaults, identityLogs) :=
    orElse none "failed loading certificates"
      (Identity.load files config.certificatePath config.keyPath)
  let (pool, poolLogs) := TrustPool.load files config.authorityPath
  let (roots, poolFaults, poolWarnings) := orElse {} "failed loading CA certificates" pool
  { material := ⟨identity, roots⟩
    warnings := identityFaults ++ poolFaults
    logs := identityLogs ++ poolLogs ++ poolWarnings }

/-- An identity is used if its key is the one of its certificate. -/
def checkIdentity (i : Identity) : Except TlsFault Unit :=
  match Identity.compareKeys i.leaf i.key with
  | .same => .ok ()
  | .different => .error .keyMismatch
  | .badCertificate fault => .error (.certificate fault)
  | .badKey => .error .invalidKey

/-- The settings of connections that are secured by the material. -/
def settings (m : TlsMaterial) (skipVerify : Bool) : Except TlsFault TlsSettings := do
  match m.identity with
  | some i => checkIdentity i
  | none => pure ()
  return {
    verifier := if skipVerify then .acceptAll else .trust m.roots
    identity := m.identity
    protocols := ["h2"] }

end TlsMaterial

end Telemetry
