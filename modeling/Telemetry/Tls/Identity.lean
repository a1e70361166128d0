import Telemetry.Certificate
import Telemetry.Files
import Telemetry.Pem
import Telemetry.PrivateKey

/-! The identity of a client: a chain of certificates, the first of which is its own, and the
private key that belongs to that one. What is wrong with certificates and keys does not keep a
connection from being tried. -/

namespace Telemetry

/-- One half of an identity, by the setting that names its file. -/
inductive IdentityPart
  | certificate
  | key
  deriving DecidableEq, Repr

def IdentityPart.name : IdentityPart → String
  | .certificate => "tls-cert"
  | .key => "tls-key"

inductive LoadFault
  | file (path : String) (fault : FileFault)
  | pem (path : String) (fault : Pem.Fault)
  | noCertificates (path : String)
  | noPrivateKey (path : String)
  | invalidKey
  | keyMismatch
  | incomplete (missing : IdentityPart)
  deriving DecidableEq, Repr

def LoadFault.message : LoadFault → String
  | .file path fault => "Failed to read '" ++ path ++ "': " ++ fault.message
  | .pem path fault => "Invalid PEM data in '" ++ path ++ "': " ++ fault.message
  | .noCertificates path => "No certificate found in '" ++ path ++ "'"
  | .noPrivateKey path => "No private key found in '" ++ path ++ "'"
  | .invalidKey =>
    "Unsupported private key: unexpected error: failed to parse private key as RSA, ECDSA, or EdDSA"
  | .keyMismatch => "The private key does not match the certificate"
  | .incomplete missing =>
    "Both a certificate and a key are required, '" ++ missing.name ++ "' was not provided"

/-- The chain is not empty. -/
structure Identity where
  leaf : Bytes
  issuers : List Bytes
  key : PrivateKey
  deriving DecidableEq, Repr

namespace Identity

def chain (i : Identity) : List Bytes := i.leaf :: i.issuers

/-- How a key and a certificate belong together. -/
inductive Match
  | same
  | different
  | badCertificate (fault : CertificateFault)
  | badKey
  deriving DecidableEq, Repr

/-- Compares the public key of a key with the one that a certificate names. -/
def compareKeys (leaf : Bytes) (key : PrivateKey) : Match :=
  match key.publicKey? with
  | none => .badKey
  | some publicKey =>
    match Certificate.parse leaf with
    | .error fault => .badCertificate fault
    | .ok certificate => if certificate.publicKey = publicKey then .same else .different

/-- The first private key among the blocks of a text, unless a fault stands before it. -/
def firstKey (path : String) : List (Except Pem.Fault Pem.Block) → Except LoadFault PrivateKey
  | [] => .error (.noPrivateKey path)
  | .error fault :: _ => .error (.pem path fault)
  | .ok block :: rest =>
    match block.kind with
    | .rsaPrivateKey => .ok ⟨.rsa, block.content⟩
    | .ecPrivateKey => .ok ⟨.curve, block.content⟩
    | .privateKey => .ok ⟨.general, block.content⟩
    | _ => firstKey path rest

/-- All certificates of a text, if there is no fault in it. -/
def readChain (path : String) (text : Bytes) : Except LoadFault (List Bytes) :=
  ((Pem.certificates text).mapM id).mapError (.pem path)

def readFile (files : Files) (path : String) : Except LoadFault Bytes :=
  (files.read path).mapError (.file path)

/-- Loads an identity from its two files. A certificate that cannot be read belongs to any key. -/
def loadFiles (files : Files) (certificatePath keyPath : String) :
    Except LoadFault Identity := do
  let chain ← readChain certificatePath (← readFile files certificatePath)
  match chain with
  | [] => .error (.noCertificates certificatePath)
  | leaf :: issuers =>
    let key ← firstKey keyPath (Pem.read (← readFile files keyPath))
    match compareKeys leaf key with
    | .badKey => .error .invalidKey
    | .different => .error .keyMismatch
    | .same | .badCertificate _ => return ⟨leaf, issuers, key⟩

/-- Loads the identity that two paths name. Two empty paths name none. -/
def load (files : Files) (certificatePath keyPath : String) :
    Except LoadFault (Option Identity) :=
  if certificatePath = "" then
    if keyPath = "" then .ok none else .error (.incomplete .certificate)
  else if keyPath = "" then .error (.incomplete .key)
  else (loadFiles files certificatePath keyPath).map some

end Identity

end Telemetry
