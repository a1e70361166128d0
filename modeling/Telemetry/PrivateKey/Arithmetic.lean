import Telemetry.Der
import Telemetry.PrivateKey.Sha512

/-! The arithmetic of private keys: numbers modulo another one and as bytes, and the points of
two kinds of curves. -/

namespace Telemetry.Modular

/-- The difference modulo `m`. -/
def sub (m a b : Nat) : Nat := (a + (m - b % m)) % m

/-- The number of binary digits. -/
def bitLength (n : Nat) : Nat := if n = 0 then 0 else n.log2 + 1

/-- The binary digits of a number, most significant first. -/
def bits (n : Nat) : List Bool := (List.range (bitLength n)).reverse.map n.testBit

/-- A power modulo `m`, one squaring for each binary digit of the exponent. -/
def pow (m a : Nat) (e : Nat) : Nat :=
  (bits e).foldl (fun r b => if b then r * r % m * a % m else r * r % m) (1 % m)

/-- The inverse modulo a prime. -/
def inverse (p a : Nat) : Nat := pow p a (p - 2)

/-- `width` bytes, least significant first. -/
def littleEndian : (width : Nat) → Nat → Bytes
  | 0, _ => []
  | width + 1, n => UInt8.ofNat n :: littleEndian width (n / 256)

/-- `width` bytes, most significant first. -/
def bigEndian (width n : Nat) : Bytes := (littleEndian width n).reverse

end Telemetry.Modular

/-! ## Curves of keys that carry their point

Elliptic curves `y² = x³ - 3x + b` over a prime field, and the multiples of a point on one. -/

namespace Telemetry.Weierstrass

/-- A curve and a point on it that has a prime order. -/
structure Curve where
  /-- The prime of the field. -/
  field : Nat
  /-- The order of the point. -/
  order : Nat
  baseX : Nat
  baseY : Nat
  /-- How many bytes a number of the field takes. -/
  width : Nat
  /-- The object identifier of the curve, with its tag and length. -/
  identifier : Bytes
  deriving DecidableEq, Repr

def p256 : Curve where
  field := 0xffffffff00000001000000000000000000000000ffffffffffffffffffffffff
  order := 0xffffffff00000000ffffffffffffffffbce6faada7179e84f3b9cac2fc632551
  baseX := 0x6b17d1f2e12c4247f8bce6e563a440f277037d812deb33a0f4a13945d898c296
  baseY := 0x4fe342e2fe1a7f9b8ee7eb4a7c0f9e162bce33576b315ececbb6406837bf51f5
  width := 32
  identifier := [0x06, 0x08, 0x2A, 0x86, 0x48, 0xCE, 0x3D, 0x03, 0x01, 0x07]

def p384 : Curve where
  field :=
    0xfffffffffffffffffffffffffffffffffffffffffffffffffffffffffffffffeffffffff0000000000000000ffffffff
  order :=
    0xffffffffffffffffffffffffffffffffffffffffffffffffc7634d81f4372ddf581a0db248b0a77aecec196accc52973
  baseX :=
    0xaa87ca22be8b05378eb1c71ef320ad746e1d3b628ba79b9859f741e082542a385502f25dbf55296c3a545e3872760ab7
  baseY :=
    0x3617de4a96262c6f5d9e98bf9292dc29f8f41dbd289a147ce9da3113b5f0b8c00a60b1ce1d7e819d7a431d7c90ea0e5f
  width := 48
  identifier := [0x06, 0x05, 0x2B, 0x81, 0x04, 0x00, 0x22]

/-- The point `(x / z², y / z³)`, or the point at infinity if `z` is zero. -/
structure Point where
  x : Nat
  y : Nat
  z : Nat
  deriving DecidableEq, Repr

def infinity : Point := ⟨1, 1, 0⟩

def Point.double (c : Curve) (p : Point) : Point :=
  let m := c.field
  let yy := p.y * p.y % m
  let s := 4 * p.x * yy % m
  let zz := p.z * p.z % m
  let t := 3 * (Modular.sub m p.x zz) * (p.x + zz) % m
  let x := Modular.sub m (t * t) (2 * s)
  let y := Modular.sub m (t * Modular.sub m s x) (8 * yy * yy)
  ⟨x, y, 2 * p.y * p.z % m⟩

def Point.add (c : Curve) (p q : Point) : Point :=
  if p.z = 0 then q
  else if q.z = 0 then p
  else
    let m := c.field
    let pzz := p.z * p.z % m
    let qzz := q.z * q.z % m
    let u := p.x * qzz % m
    let s := p.y * qzz * q.z % m
    let h := Modular.sub m (q.x * pzz) u
    let r := Modular.sub m (q.y * pzz * p.z) s
    if h = 0 then if r = 0 then p.double c else infinity
    else
      let hh := h * h % m
      let hhh := hh * h % m
      let v := u * hh % m
      let x := Modular.sub m (r * r) (hhh + 2 * v)
      let y := Modular.sub m (r * Modular.sub m v x) (s * hhh)
      ⟨x, y, h * p.z * q.z % m⟩

/-- A multiple of a point, one doubling for each binary digit of the factor. -/
def Point.multiple (c : Curve) (p : Point) (n : Nat) : Point :=
  (Modular.bits n).foldl (fun q b => if b then (q.double c).add c p else q.double c) infinity

/-- Both coordinates of a point that is not at infinity, after the byte 4. -/
def Point.encode (c : Curve) (p : Point) : Bytes :=
  let i := Modular.inverse c.field p.z
  let ii := i * i % c.field
  4 :: Modular.bigEndian c.width (p.x * ii % c.field) ++
    Modular.bigEndian c.width (p.y * ii * i % c.field)

/-- The public key of a secret number: a multiple of the base point. -/
def Curve.publicKey (c : Curve) (secret : Nat) : Bytes :=
  ((Point.mk c.baseX c.baseY 1).multiple c secret).encode c

end Telemetry.Weierstrass

/-! ## The curve of keys that are a seed

The curve `y² - x² = 1 + d x² y²` modulo `2^255 - 19`, and the public keys of its signature
scheme. -/

namespace Telemetry.Edwards

def field : Nat := Nat.pow 2 255 - 19

/-- The number `-121665 / 121666`. -/
def d : Nat := 0x52036cee2b6ffe738cc740797779e89800700a4d4141d8ab75eb4dca135978a3

/-- The point `(x / z, y / z)`, with `t = x y / z`. -/
structure Point where
  x : Nat
  y : Nat
  z : Nat
  t : Nat
  deriving DecidableEq, Repr

def neutral : Point := ⟨0, 1, 1, 0⟩

def baseX : Nat := 0x216936d3cd6e53fec0a4e231fdd6dc5c692cc7609525a7b2c9562d608f25d51a

def baseY : Nat := 0x6666666666666666666666666666666666666666666666666666666666666658

/-- The point with `y = 4 / 5` and an even `x`. -/
def base : Point := ⟨baseX, baseY, 1, baseX * baseY % field⟩

/-- The sum of two points. It is the same formula for a point and itself. -/
def Point.add (p q : Point) : Point :=
  let a := Modular.sub field p.y p.x * Modular.sub field q.y q.x % field
  let b := (p.y + p.x) * (q.y + q.x) % field
  let c := 2 * d * p.t * q.t % field
  let f := 2 * p.z * q.z % field
  let e := Modular.sub field b a
  let g := f + c
  let f := Modular.sub field f c
  let h := b + a
  ⟨e * f % field, g * h % field, f * g % field, e * h % field⟩

/-- A multiple of a point, one doubling for each binary digit of the factor. -/
def Point.multiple (p : Point) (n : Nat) : Point :=
  (Modular.bits n).foldl (fun q b => if b then (q.add q).add p else q.add q) neutral

/-- The second coordinate, and the parity of the first one as the top bit. -/
def Point.encode (p : Point) : Bytes :=
  let i := Modular.inverse field p.z
  Modular.littleEndian 32 (p.y * i % field + p.x * i % field % 2 * Nat.pow 2 255)

def seedLength : Nat := 32

/-- The factor of a seed: the first half of its hash, read from its least significant byte, as a
multiple of eight with the bit 254 as its top bit. -/
def secret (seed : Bytes) : Nat :=
  let n := Der.natOfBytes ((Sha512.hash seed).take 32).reverse
  n % Nat.pow 2 254 / 8 * 8 + Nat.pow 2 254

def publicKey (seed : Bytes) : Bytes := (base.multiple (secret seed)).encode

end Telemetry.Edwards
