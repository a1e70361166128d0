import Telemetry.Json.Document

/-! Reading the numbers of a JSON text. An integer that fits 64 bits stays an integer. Any other
number is read as a significand of at most 64 bits and a power of ten, and is the significand
scaled by that power in binary64 arithmetic: digits that no longer fit the significand are
dropped, and the result is not the nearest number in every case. -/

namespace Telemetry.Json

/-- A reader gives what it read and the bytes behind it. -/
abbrev Reader (α : Type) := Bytes → Except Fault (α × Bytes)

/-- Fails at the place reached. -/
def stop {α : Type} (cause : Cause) (rest : Bytes) : Except Fault α :=
  .error ⟨cause, rest.length⟩

/-- Fails at the byte that comes next. -/
def stopAtNext {α : Type} (cause : Cause) (rest : Bytes) : Except Fault α :=
  .error ⟨cause, rest.length - 1⟩

namespace NumberReader

def digit? (b : UInt8) : Option Nat :=
  if 48 ≤ b && b ≤ 57 then some (b.toNat - 48) else none

def isDigit (b : UInt8) : Bool := (digit? b).isSome

/-- Appends digits to a significand while it stays below 2^64, and counts them. -/
def appendDigits (significand count : Nat) : Bytes → Nat × Nat × Bytes
  | [] => (significand, count, [])
  | b :: r =>
    match digit? b with
    | none => (significand, count, b :: r)
    | some d =>
      if significand * 10 + d < Nat.pow 2 64 then appendDigits (significand * 10 + d) (count + 1) r
      else (significand, count, b :: r)

/-- `x` times ten to the power `e`, in steps of at most 308; nothing where that is infinite. -/
def scale (x : Binary64) (e : Int) : Option Binary64 :=
  if 0 ≤ e then
    if e ≤ 308 then
      let y := x.mul (.powerOfTen e.toNat)
      if y.isInfinite then none else some y
    else if x.isZero then some x else none
  else if -308 ≤ e then some (x.div (.powerOfTen (-e).toNat))
  else if x.isZero then some x
  else scale (x.div (.powerOfTen 308)) (e + 308)
termination_by (-e).toNat
decreasing_by omega

def signed (positive : Bool) (x : Binary64) : Binary64 := if positive then x else x.neg

/-- The number with a significand and an exponent, both read completely. -/
def finish (positive : Bool) (significand : Nat) (exponent : Int) (rest : Bytes) :
    Except Fault (Number × Bytes) :=
  match scale (.ofNat significand) exponent with
  | some x => .ok (.real (signed positive x), rest)
  | none => stop .numberOutOfRange rest

/-- The digits of a written exponent up to 2^31 - 1; of a larger one, the bytes behind the digit
that makes it so. -/
def exponentDigits (e : Nat) : Bytes → Except Bytes (Nat × Bytes)
  | [] => .ok (e, [])
  | b :: r =>
    match digit? b with
    | none => .ok (e, b :: r)
    | some d => if e * 10 + d < Nat.pow 2 31 then exponentDigits (e * 10 + d) r else .error r

/-- Exponents are kept within 32 bits. -/
def clamp (e : Int) : Int := max (-2147483648) (min 2147483647 e)

/-- What follows the letter of an exponent. -/
def exponentPart (positive : Bool) (significand : Nat) (start : Int) : Reader Number
  | s =>
    let (up, s) := match s with
      | 43 :: r => (true, r)
      | 45 :: r => (false, r)
      | s => (true, s)
    match s with
    | [] => stop .eofInValue []
    | b :: r =>
      match digit? b with
      | none => stop .invalidNumber r
      | some d =>
        match exponentDigits d r with
        | .ok (e, r) => finish positive significand (clamp (if up then start + e else start - e)) r
        | .error r =>
          if up && significand != 0 then stop .numberOutOfRange r
          else .ok (.real (.zero !positive), r.dropWhile isDigit)

def isExponentMark (b : UInt8) : Bool := b == 101 || b == 69

/-- What follows a significand and, where it has one, its fraction. -/
def exponentOrEnd (positive : Bool) (significand : Nat) (exponent : Int) : Reader Number
  | [] => finish positive significand exponent []
  | b :: r =>
    if isExponentMark b then exponentPart positive significand exponent r
    else finish positive significand exponent (b :: r)

def fractionPart (positive : Bool) (significand : Nat) (start : Int) : Reader Number
  | s =>
    match appendDigits significand 0 s with
    | (m, n, []) => if n = 0 then stopAtNext .eofInValue [] else finish positive m (start - n) []
    | (m, n, b :: r) =>
      if isDigit b then exponentOrEnd positive m (start - n) (r.dropWhile isDigit)
      else if n = 0 then stopAtNext .invalidNumber (b :: r)
      else exponentOrEnd positive m (start - n) (b :: r)

/-- The number of an integer part that is neither followed by a fraction nor by an exponent. -/
def integral (positive : Bool) (significand : Nat) : Number :=
  if positive then .integer significand
  else if significand = 0 || Nat.pow 2 63 < significand then .real (Binary64.ofNat significand).neg
  else .integer (-significand)

/-- What follows an integer part, of which `dropped` digits did not fit. -/
def afterInteger (positive : Bool) (significand dropped : Nat) : Reader Number
  | 46 :: r => fractionPart positive significand dropped r
  | s =>
    if (s.head?.map isExponentMark).getD false then
      exponentPart positive significand dropped s.tail
    else if dropped = 0 then .ok (integral positive significand, s)
    else finish positive significand dropped s

/-- A number, behind its minus sign if it is not positive. -/
def number (positive : Bool) : Reader Number
  | [] => stop .eofInValue []
  | b :: r =>
    match digit? b with
    | none => stop .invalidNumber r
    | some 0 =>
      if (r.head?.map isDigit).getD false then stopAtNext .invalidNumber r
      else afterInteger positive 0 0 r
    | some d =>
      let (m, _, rest) := appendDigits d 0 r
      let dropped := (rest.takeWhile isDigit).length
      afterInteger positive m dropped (rest.drop dropped)

end NumberReader

end Telemetry.Json
