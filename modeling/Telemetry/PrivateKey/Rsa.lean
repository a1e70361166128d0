import Telemetry.PrivateKey.Arithmetic

/-! RSA keys: the nine numbers of a private key with two primes, and the conditions under which
the key is used. -/

namespace Telemetry.Rsa

structure Key where
  modulus : Nat
  publicExponent : Nat
  privateExponent : Nat
  prime1 : Nat
  prime2 : Nat
  exponent1 : Nat
  exponent2 : Nat
  coefficient : Nat
  deriving DecidableEq, Repr

/-- The fewest bytes of a modulus and the most bits of it. -/
def minModulusBytes : Nat := 256
def maxModulusBits : Nat := 4096

/-- Whole bytes count at the lower end, so that the first bits of the shortest modulus may be
zero. -/
def isModulusSize (bits : Nat) : Bool := minModulusBytes ≤ (bits + 7) / 8 && bits ≤ maxModulusBits

/-- A prime has half the bits of the modulus, and a multiple of 512 bits. -/
def isPrimeOfSize (modulusBits p : Nat) : Bool :=
  Modular.bitLength p == (modulusBits + 1) / 2 && Modular.bitLength p % 512 == 0 && p % 2 == 1

/-- The public exponent is odd, at least 65537 and less than 2^33. -/
def isPublicExponent (e : Nat) : Bool := 65537 ≤ e && e < Nat.pow 2 33 && e % 2 == 1

/-- The conditions on the numbers of a key. That the primes are prime is not checked. -/
def Key.isUsable (k : Key) : Bool :=
  let size := Modular.bitLength k.modulus
  isModulusSize size && k.modulus % 2 == 1 &&
    isPublicExponent k.publicExponent &&
    isPrimeOfSize size k.prime1 && isPrimeOfSize size k.prime2 &&
    k.prime1 * k.prime2 % k.modulus == 0 &&
    (size + 1) / 2 < Modular.bitLength k.privateExponent &&
    k.privateExponent < k.modulus && k.privateExponent % 2 == 1 &&
    k.exponent1 < k.prime1 && k.exponent1 % 2 == 1 &&
    k.exponent2 < k.prime2 && k.exponent2 % 2 == 1 &&
    k.coefficient < k.prime1 && k.coefficient * k.prime2 % k.prime1 == 1

/-- Reads a private key from its elements. No number starts with a zero byte. -/
def Key.ofDer? (bs : Bytes) : Option Key := do
  let (version, bs) ← Der.readSmall .key bs
  if version ≠ 0 then none
  else
    let number (bs : Bytes) : Option (Nat × Bytes) := do
      let (n, rest) ← Der.readMagnitude .key bs
      return (Der.natOfBytes n, rest)
    let (n, bs) ← number bs
    let (e, bs) ← number bs
    let (d, bs) ← number bs
    let (p, bs) ← number bs
    let (q, bs) ← number bs
    let (dp, bs) ← number bs
    let (dq, bs) ← number bs
    let (qInv, bs) ← number bs
    if bs.isEmpty then return ⟨n, e, d, p, q, dp, dq, qInv⟩ else none

def magnitudeBytes (n : Nat) : Bytes := Modular.bigEndian ((Modular.bitLength n + 7) / 8) n

/-- The public key: the modulus and the public exponent. -/
def Key.publicKey (k : Key) : Bytes :=
  let integer (n : Nat) : Bytes := Der.element Der.integerTag (Der.positive (magnitudeBytes n))
  Der.element Der.sequenceTag (integer k.modulus ++ integer k.publicExponent)

end Telemetry.Rsa
