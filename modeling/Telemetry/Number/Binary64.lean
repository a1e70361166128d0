/-! Binary floating point numbers of 64 bits. A finite number is a significand times a power of
two, and every operation here is the exact one on ratios of natural numbers followed by one
rounding, `Binary64.roundRatio`: to the nearest number, and of two nearest ones to the one with
the even significand. -/

namespace Telemetry

/-- A binary64 number, as its word: a sign, eleven bits of exponent and 52 bits of fraction. -/
structure Binary64 where
  bits : UInt64
  deriving DecidableEq, Repr, Inhabited

namespace Binary64

/-- The word of infinity, without its sign. -/
def infinityWord : Nat := 0x7FF * Nat.pow 2 52

/-- The quotient rounded to the nearest integer, a half going to the even neighbour. -/
def roundQuotient (num den : Nat) : Nat :=
  let q := num / den
  let r := num % den
  if 2 * r < den then q
  else if den < 2 * r then q + 1
  else if q % 2 = 0 then q else q + 1

/-- The exponent of the last place of `num / den`: a significand of 53 bits, or fewer at the
lower end of the range. -/
def lastPlace (num den : Nat) : Int :=
  let q : Int := (num.log2 : Int) - (den.log2 : Int) - 53
  let small := if q < 0 then num * Nat.pow 2 (-q).toNat < den * Nat.pow 2 53
    else num < den * Nat.pow 2 (q.toNat + 53)
  max (-1074) (if small then q else q + 1)

/-- The word of the number nearest to `num / den`, without its sign. A significand that rounds up
to 2^53 carries into the exponent, and what lies beyond the largest number is infinity. -/
def roundRatio (num den : Nat) : Nat :=
  if num = 0 then 0 else
  let q := lastPlace num den
  let m := if q < 0 then roundQuotient (num * Nat.pow 2 (-q).toNat) den
    else roundQuotient num (den * Nat.pow 2 q.toNat)
  min infinityWord ((q + 1074).toNat * Nat.pow 2 52 + m)

/-- The number with a sign and the word of a magnitude. -/
def ofWord (negative : Bool) (word : Nat) : Binary64 :=
  ⟨UInt64.ofNat (if negative then Nat.pow 2 63 + word else word)⟩

def ofRatio (negative : Bool) (num den : Nat) : Binary64 :=
  ofWord negative (roundRatio num den)

def ofNat (n : Nat) : Binary64 := ofRatio false n 1

def ofInt (n : Int) : Binary64 := ofRatio (decide (n < 0)) n.natAbs 1

def isNegative (x : Binary64) : Bool := decide (Nat.pow 2 63 ≤ x.bits.toNat)

/-- The word without the sign. -/
def word (x : Binary64) : Nat := x.bits.toNat % Nat.pow 2 63

def isNaN (x : Binary64) : Bool := decide (infinityWord < x.word)

def isInfinite (x : Binary64) : Bool := x.word == infinityWord

def isFinite (x : Binary64) : Bool := decide (x.word < infinityWord)

def isZero (x : Binary64) : Bool := x.word == 0

/-- Significand and exponent of the last place. -/
def parts (x : Binary64) : Nat × Int :=
  let e : Nat := x.word / Nat.pow 2 52
  let f : Nat := x.word % Nat.pow 2 52
  if e = 0 then (f, -1074) else (f + Nat.pow 2 52, (e : Int) - 1075)

/-- The magnitude of a finite number as a ratio. -/
def num (x : Binary64) : Nat := x.parts.1 * Nat.pow 2 x.parts.2.toNat

def den (x : Binary64) : Nat := Nat.pow 2 (-x.parts.2).toNat

def nan : Binary64 := ⟨0x7FF8000000000000⟩

def infinity (negative : Bool) : Binary64 := ofWord negative infinityWord

def zero (negative : Bool) : Binary64 := ofWord negative 0

def neg (x : Binary64) : Binary64 := ofWord (!x.isNegative) x.word

def mul (x y : Binary64) : Binary64 :=
  let s := x.isNegative != y.isNegative
  if x.isNaN || y.isNaN then nan
  else if x.isInfinite || y.isInfinite then
    if x.isZero || y.isZero then nan else infinity s
  else ofRatio s (x.num * y.num) (x.den * y.den)

def div (x y : Binary64) : Binary64 :=
  let s := x.isNegative != y.isNegative
  if x.isNaN || y.isNaN then nan
  else if x.isInfinite then (if y.isInfinite then nan else infinity s)
  else if y.isInfinite then zero s
  else if y.isZero then (if x.isZero then nan else infinity s)
  else ofRatio s (x.num * y.den) (x.den * y.num)

/-- The number nearest to a power of ten. -/
def powerOfTen (n : Nat) : Binary64 := ofNat (Nat.pow 10 n)

/-- A power by squaring, `base ^ n * acc` with a rounding after every product, for an exponent of
at most `digits` binary digits. -/
def powFrom : (digits : Nat) → (base acc : Binary64) → (n : Nat) → Binary64
  | 0, _, acc, _ => acc
  | digits + 1, base, acc, n =>
    powFrom digits (base.mul base) (if n % 2 = 1 then acc.mul base else acc) (n / 2)

/-- An integer power: that of a negative exponent is one divided by that of the opposite. -/
def pow (base : Binary64) (n : Int) : Binary64 :=
  let p := powFrom (n.natAbs.log2 + 1) base (ofNat 1) n.natAbs
  if n < 0 then (ofNat 1).div p else p

/-- The number with the value of a binary32 word: eight bits of exponent, 23 of fraction. -/
def ofBinary32 (w : UInt32) : Binary64 :=
  let s := decide (Nat.pow 2 31 ≤ w.toNat)
  let e := w.toNat / Nat.pow 2 23 % Nat.pow 2 8
  let f := w.toNat % Nat.pow 2 23
  if e = 255 then (if f = 0 then infinity s else nan)
  else if e = 0 then ofRatio s f (Nat.pow 2 149)
  else if 150 ≤ e then ofRatio s ((f + Nat.pow 2 23) * Nat.pow 2 (e - 150)) 1
  else ofRatio s (f + Nat.pow 2 23) (Nat.pow 2 (150 - e))

end Binary64

end Telemetry
