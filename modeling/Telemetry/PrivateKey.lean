import Telemetry.PrivateKey.Arithmetic
import Telemetry.PrivateKey.Rsa

/-! Private keys in their three formats, and the public key that belongs to one. A key is usable if
it is an RSA key, a key on one of two elliptic curves, or an Edwards key. -/

namespace Telemetry

/-- The formats of private keys: of RSA alone, of elliptic curves alone, and of all kinds. -/
inductive KeyFormat
  | rsa
  | curve
  | general
  deriving DecidableEq, Repr

structure PrivateKey where
  format : KeyFormat
  content : Bytes
  deriving DecidableEq, Repr

namespace PrivateKey

open Der

/-- The identifiers of algorithms, each with its parameters. -/
def rsaAlgorithm : Bytes :=
  [0x06, 0x09, 0x2A, 0x86, 0x48, 0x86, 0xF7, 0x0D, 0x01, 0x01, 0x01, 0x05, 0x00]

def curveAlgorithm (c : Weierstrass.Curve) : Bytes :=
  [0x06, 0x07, 0x2A, 0x86, 0x48, 0xCE, 0x3D, 0x02, 0x01] ++ c.identifier

def edwardsAlgorithm : Bytes := [0x06, 0x03, 0x2B, 0x65, 0x70]

/-- The content of a public key with its algorithm. -/
def publicKeyInfo (algorithm key : Bytes) : Bytes :=
  element sequenceTag algorithm ++ element bitStringTag (0 :: key)

/-- The content of the only element of a text. -/
def only (tag : UInt8) (bs : Bytes) : Option Bytes := do
  let (content, rest) ← expect .key tag bs
  if rest.isEmpty then return content else none

/-- A key of the general format, and the public key that the second version of it carries. -/
structure Wrapped where
  key : Bytes
  publicKey : Option Bytes
  deriving DecidableEq, Repr

def readWrappedPublicKey (bs : Bytes) : Option Bytes :=
  if bs.head? = some (contextTag 1) then do
    wholeBytes (← only bitStringTag (← only (contextTag 1) bs))
  else do wholeBytes (← only (primitiveContextTag 1) bs)

/-- Takes a key of an algorithm out of the general format. Attributes are skipped. -/
def unwrap (algorithm : Bytes) (bs : Bytes) : Option Wrapped := do
  let bs ← only sequenceTag bs
  let (version, bs) ← readSmall .key bs
  let (actual, bs) ← expect .key sequenceTag bs
  if version > 1 || actual ≠ algorithm then none
  else
    let (key, bs) ← expect .key octetStringTag bs
    let bs ←
      if bs.head? = some (contextTag 0) then do
        let (_, rest) ← expect .key (contextTag 0) bs
        pure rest
      else pure bs
    if version = 0 then if bs.isEmpty then return ⟨key, none⟩ else none
    else return ⟨key, some (← readWrappedPublicKey bs)⟩

/-- A key of the first version of the general format. -/
def unwrapFirst (algorithm : Bytes) (bs : Bytes) : Option Bytes := do
  let w ← unwrap algorithm bs
  if w.publicKey.isNone then return w.key else none

def rsaPublicKey? (bs : Bytes) : Option Bytes := do
  let key ← Rsa.Key.ofDer? (← only sequenceTag bs)
  if key.isUsable then return publicKeyInfo rsaAlgorithm key.publicKey else none

/-- A key on a curve carries its public key, which has to be the one of its secret number. -/
def curvePublicKey? (c : Weierstrass.Curve) (bs : Bytes) : Option Bytes := do
  let bs ← only sequenceTag bs
  let (version, bs) ← readSmall .key bs
  if version ≠ 1 then none
  else
    let (secret, bs) ← expect .key octetStringTag bs
    let bs ←
      if bs.head? = some (contextTag 0) then do
        let (identifier, rest) ← expect .key (contextTag 0) bs
        if identifier = c.identifier then pure rest else none
      else pure bs
    let publicKey ← wholeBytes (← only bitStringTag (← only (contextTag 1) bs))
    let n := natOfBytes secret
    if secret.length = c.width && 0 < n && n < c.order && c.publicKey n == publicKey then
      return publicKeyInfo (curveAlgorithm c) publicKey
    else none

def edwardsPublicKey? (bs : Bytes) : Option Bytes := do
  let w ← unwrap edwardsAlgorithm bs
  let seed ← only octetStringTag w.key
  if seed.length ≠ Edwards.seedLength then none
  else
    let publicKey := Edwards.publicKey seed
    if (w.publicKey.getD publicKey) = publicKey then
      return publicKeyInfo edwardsAlgorithm publicKey
    else none

/-- The public key with its algorithm, if the private key is usable. -/
def publicKey? (k : PrivateKey) : Option Bytes :=
  match k.format with
  | .rsa => rsaPublicKey? k.content
  | .curve =>
    (curvePublicKey? Weierstrass.p256 k.content).or (curvePublicKey? Weierstrass.p384 k.content)
  | .general =>
    let onCurve (c : Weierstrass.Curve) : Option Bytes :=
      (unwrapFirst (curveAlgorithm c) k.content).bind (curvePublicKey? c)
    ((unwrapFirst rsaAlgorithm k.content).bind rsaPublicKey?).or <|
      (onCurve Weierstrass.p256).or <| (onCurve Weierstrass.p384).or (edwardsPublicKey? k.content)

end PrivateKey

end Telemetry
