import Telemetry.Pem.Base64

/-! Armoured text: blocks of base 64 between a line that begins a section and a line that ends it.
Lines outside of sections are skipped, and so are sections of unknown labels, without being
decoded. -/

namespace Telemetry.Pem

inductive Kind
  | certificate
  | publicKey
  | rsaPrivateKey
  | privateKey
  | ecPrivateKey
  | revocationList
  | certificateRequest
  | encryptedHello
  deriving DecidableEq, Repr

def Kind.label : Kind → String
  | .certificate => "CERTIFICATE"
  | .publicKey => "PUBLIC KEY"
  | .rsaPrivateKey => "RSA PRIVATE KEY"
  | .privateKey => "PRIVATE KEY"
  | .ecPrivateKey => "EC PRIVATE KEY"
  | .revocationList => "X509 CRL"
  | .certificateRequest => "CERTIFICATE REQUEST"
  | .encryptedHello => "ECHCONFIG"

def Kind.all : List Kind :=
  [.certificate, .publicKey, .rsaPrivateKey, .privateKey, .ecPrivateKey, .revocationList,
    .certificateRequest, .encryptedHello]

def Kind.ofLabel? (label : Bytes) : Option Kind :=
  Kind.all.find? fun k => Text.utf8 k.label == label

structure Block where
  kind : Kind
  content : Bytes
  deriving DecidableEq, Repr

inductive Fault
  | missingEnd (label : Bytes)
  | illegalStart (line : Bytes)
  | base64 (fault : Base64.Fault)
  deriving DecidableEq, Repr

def showBytes (bs : Bytes) : String :=
  "[" ++ ", ".intercalate (bs.map fun b => toString b.toNat) ++ "]"

def Fault.message : Fault → String
  | .missingEnd label => "missing section end marker: " ++ showBytes label
  | .illegalStart line => "illegal section start: " ++ showBytes line
  | .base64 fault => "base64 decode error: " ++ fault.message

def startMark : Bytes := Text.utf8 "-----BEGIN "

def endMark (label : Bytes) : Bytes := Text.utf8 "-----END " ++ label ++ Text.utf8 "-----"

def isLineEnd (b : UInt8) : Bool := b == 10 || b == 13

/-- The lines of a text. After the last line end there is no further line. -/
def linesOf (bs : Bytes) : List Bytes :=
  let lines := bs.splitOnP isLineEnd
  if lines.getLast? == some [] then lines.dropLast else lines

def dash : UInt8 := 45

def space : UInt8 := 32

/-- The label of a line that begins a section: what stands before five dashes at its end. Spaces
may follow the dashes and stand between them. -/
def startLabel? (line : Bytes) : Option Bytes :=
  let tail := (line.reverse.takeWhile fun b => b == dash || b == space).reverse
  if tail.count dash = 5 then
    some ((line.take (line.length - (tail.dropWhile (· == space)).length)).drop startMark.length)
  else none

/-- The section that is open, if one is, and what has been collected of its content. -/
structure Reader where
  label : Option Bytes := none
  body : Bytes := []
  deriving DecidableEq, Repr

/-- What a line leads to: the reader goes on, or something has been read. -/
inductive Reader.Outcome
  | next (reader : Reader)
  | read (result : Except Fault Block)

namespace Reader

/-- Ends the section of a label. -/
def close (label body : Bytes) : Outcome :=
  match Kind.ofLabel? label with
  | none => .next {}
  | some kind =>
    match Base64.decode body with
    | .ok content => .read (.ok ⟨kind, content⟩)
    | .error fault => .read (.error (.base64 fault))

/-- Goes on by a line. A section that begins inside of another one takes its place and keeps what
has been collected. -/
def step (r : Reader) (line : Bytes) : Outcome :=
  if startMark.isPrefixOf line then
    match startLabel? line with
    | some label => .next { r with label := some label }
    | none => .read (.error (.illegalStart line))
  else
    match r.label with
    | none => .next r
    | some label =>
      if (endMark label).isPrefixOf line then close label r.body
      else .next { r with body := r.body ++ line }

/-- All that is read from the lines on, in order. After a block or a fault no section is open. -/
def run (r : Reader) : List Bytes → List (Except Fault Block)
  | [] =>
    match r.label with
    | some label => [.error (.missingEnd label)]
    | none => []
  | line :: lines =>
    match r.step line with
    | .next r => r.run lines
    | .read result => result :: Reader.run {} lines

end Reader

/-- The blocks and faults of a text, in order. -/
def read (bs : Bytes) : List (Except Fault Block) := ({} : Reader).run (linesOf bs)

/-- What a text holds of certificates, with the faults in between. -/
def certificates (bs : Bytes) : List (Except Fault Bytes) :=
  (read bs).filterMap fun
    | .error fault => some (.error fault)
    | .ok ⟨.certificate, content⟩ => some (.ok content)
    | .ok _ => none

end Telemetry.Pem
