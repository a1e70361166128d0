import Telemetry.Der

/-! Certificates: the subject and the public key that one names. A certificate is of version 3; as
a trust anchor one of version 1 is taken as well. -/

namespace Telemetry

inductive CertificateFault
  | badEncoding
  | unsupportedVersion
  | signatureAlgorithmMismatch
  | invalidExtension
  | unsupportedCriticalExtension
  deriving DecidableEq, Repr

def CertificateFault.other (name : String) : String := "Other(OtherError(" ++ name ++ "))"

def CertificateFault.message (f : CertificateFault) : String :=
  "invalid peer certificate: " ++
    match f with
    | .badEncoding => "BadEncoding"
    | .unsupportedVersion => other "UnsupportedCertVersion"
    | .signatureAlgorithmMismatch => other "SignatureAlgorithmMismatch"
    | .invalidExtension => other "ExtensionValueInvalid"
    | .unsupportedCriticalExtension => other "UnsupportedCriticalExtension"

/-- The contents of the subject and of the public key with its algorithm. -/
structure Certificate where
  subject : Bytes
  publicKey : Bytes
  deriving DecidableEq, Repr

namespace Certificate

open Der

abbrev Read (α : Type) := Except CertificateFault α

def orBad {α : Type} : Option α → Read α
  | some x => .ok x
  | none => .error .badEncoding

def expectTag (tag : UInt8) (bs : Bytes) : Read (Bytes × Bytes) :=
  orBad (expect .certificate tag bs)

def atEnd (bs : Bytes) : Read Unit :=
  if bs.isEmpty then .ok () else .error .badEncoding

/-- The version, which has to be 3. An element that is missing means another version. -/
def readVersion (bs : Bytes) : Except CertificateFault Bytes :=
  match expect .certificate (contextTag 0) bs with
  | none => .error .unsupportedVersion
  | some (content, rest) =>
    match readSmall .certificate content with
    | none => .error .badEncoding
    | some (version, []) => if version = 2 then .ok rest else .error .unsupportedVersion
    | some (_, _ :: _) => .error .unsupportedVersion

structure Extension where
  identifier : Bytes
  critical : Bool
  value : Bytes
  deriving DecidableEq, Repr

/-- A truth value that may be left out when it is false. -/
def readCritical (bs : Bytes) : Read (Bool × Bytes) :=
  if bs.head? = some booleanTag then do
    let (content, rest) ← expectTag booleanTag bs
    match content with
    | [0xFF] => return (true, rest)
    | [0x00] => return (false, rest)
    | _ => .error .badEncoding
  else .ok (false, bs)

def readExtension (bs : Bytes) : Read (Extension × Bytes) := do
  let (identifier, bs) ← expectTag identifierTag bs
  let (critical, bs) ← readCritical bs
  let (value, bs) ← expectTag octetStringTag bs
  return (⟨identifier, critical, value⟩, bs)

/-- The last number of the identifier of a standard extension. -/
def Extension.standardNumber (e : Extension) : Option UInt8 :=
  match e.identifier with
  | [0x55, 0x1D, n] => some n
  | _ => none

/-- The standard extensions that are known: key usage, alternative names, basic constraints, name
constraints, revocation lists and extended key usage. -/
def knownNumbers : List UInt8 := [15, 17, 19, 30, 31, 37]

/-- All but the key usage are sequences. -/
def checkValue (n : UInt8) (value : Bytes) : Read Unit := do
  if n = 15 then return
  else
    let (_, rest) ← expectTag sequenceTag value
    atEnd rest

def Extension.knownNumber? (e : Extension) : Option UInt8 :=
  e.standardNumber.filter knownNumbers.contains

/-- Checks a known extension after those with the numbers `seen`. It may stand only once. -/
def checkKnown (seen : List UInt8) (n : UInt8) (value : Bytes) : Read (List UInt8) := do
  if seen.contains n then .error .invalidExtension
  else
    checkValue n value
    return n :: seen

/-- Checks an extension of a peer. An unknown one must not be critical. -/
def checkExtension (seen : List UInt8) (e : Extension) : Read (List UInt8) :=
  match e.knownNumber? with
  | some n => checkKnown seen n e.value
  | none => if e.critical then .error .unsupportedCriticalExtension else .ok seen

/-- Checks an extension of a trust anchor. An unknown one does not matter. -/
def checkAnchorExtension (seen : List UInt8) (e : Extension) : Read (List UInt8) :=
  match e.knownNumber? with
  | some n => checkKnown seen n e.value
  | none => .ok seen

def checkExtensions (check : List UInt8 → Extension → Read (List UInt8)) :
    (fuel : Nat) → List UInt8 → Bytes → Read Unit
  | 0, _, _ => .ok ()
  | fuel + 1, seen, bs => do
    if bs.isEmpty then return
    else
      let (content, rest) ← expectTag sequenceTag bs
      let (e, after) ← readExtension content
      let seen ← check seen e
      atEnd after
      checkExtensions check fuel seen rest

/-- The extensions that may stand at the end of a certificate. There may be none of them. -/
def readExtensions (check : List UInt8 → Extension → Read (List UInt8)) (bs : Bytes) :
    Read Unit := do
  if bs.isEmpty then return
  else
    let (tagged, rest) ← expectTag (contextTag 3) bs
    let (list, after) ← expectTag sequenceTag tagged
    checkExtensions check list.length [] list
    atEnd after
    atEnd rest

def readVersion3 (check : List UInt8 → Extension → Read (List UInt8)) (bs : Bytes) :
    Read Certificate := do
  let (outer, after) ← expectTag sequenceTag bs
  let (signed, rest) ← expectTag sequenceTag outer
  let (algorithm, rest) ← expectTag sequenceTag rest
  let (signature, rest) ← expectTag bitStringTag rest
  let _ ← orBad (wholeBytes signature)
  atEnd rest
  atEnd after
  let rest ← readVersion signed
  let (_, rest) ← expectTag integerTag rest
  let (inner, rest) ← expectTag sequenceTag rest
  if inner ≠ algorithm then .error .signatureAlgorithmMismatch
  else
    let (_, rest) ← expectTag sequenceTag rest
    let (_, rest) ← expectTag sequenceTag rest
    let (subject, rest) ← expectTag sequenceTag rest
    let (publicKey, rest) ← expectTag sequenceTag rest
    readExtensions check rest
    return ⟨subject, publicKey⟩

/-- A certificate of version 1 has no version and no extensions. -/
def readVersion1 (bs : Bytes) : Read Certificate := do
  let (outer, after) ← expectTag sequenceTag bs
  let (signed, rest) ← expectTag sequenceTag outer
  let (_, rest) ← expectTag sequenceTag rest
  let (_, rest) ← expectTag bitStringTag rest
  atEnd rest
  atEnd after
  let (_, rest) ← expectTag integerTag signed
  let (_, rest) ← expectTag sequenceTag rest
  let (_, rest) ← expectTag sequenceTag rest
  let (_, rest) ← expectTag sequenceTag rest
  let (subject, rest) ← expectTag sequenceTag rest
  let (publicKey, rest) ← expectTag sequenceTag rest
  atEnd rest
  return ⟨subject, publicKey⟩

/-- Reads the certificate of a peer. -/
def parse (bs : Bytes) : Except CertificateFault Certificate := readVersion3 checkExtension bs

/-- Reads a certificate that is trusted by itself. -/
def anchor? (bs : Bytes) : Option Certificate :=
  match readVersion3 checkAnchorExtension bs with
  | .ok c => some c
  | .error .unsupportedVersion => (readVersion1 bs).toOption
  | .error _ => none

end Certificate

end Telemetry
