import Telemetry.Text.Blank
import Telemetry.Text.Decimal

/-! Durations in seconds and nanoseconds, and their text: the number of the largest fitting unit
with as many decimals as it needs. -/

namespace Telemetry

/-- At most 2^64 - 1 seconds, and less than a second of nanoseconds. -/
structure Duration where
  seconds : Nat := 0
  nanos : Nat := 0
  deriving DecidableEq, Repr, Inhabited

namespace Duration

def maxSeconds : Nat := Nat.pow 2 64 - 1

def nanosPerSecond : Nat := 1000000000

def total (d : Duration) : Nat := d.seconds * nanosPerSecond + d.nanos

/-- `n` in decimal with leading zeros, `width` digits in all. -/
def padded (width n : Nat) : List Char :=
  let ds := Text.decimal n
  List.replicate (width - ds.length) '0' ++ ds

/-- A number with `width` decimals, of which zeros at the end are left out. -/
def withFraction (whole width fraction : Nat) : List Char :=
  let ds := ((padded width fraction).reverse.dropWhile (· == '0')).reverse
  if fraction = 0 then Text.decimal whole else Text.decimal whole ++ '.' :: ds

/-- Seconds from one second on, and below it milliseconds, microseconds or nanoseconds. -/
def text (d : Duration) : String :=
  if 0 < d.seconds then String.ofList (withFraction d.seconds 9 d.nanos) ++ "s"
  else if 1000000 ≤ d.nanos then
    String.ofList (withFraction (d.nanos / 1000000) 6 (d.nanos % 1000000)) ++ "ms"
  else if 1000 ≤ d.nanos then
    String.ofList (withFraction (d.nanos / 1000) 3 (d.nanos % 1000)) ++ "µs"
  else String.ofList (Text.decimal d.nanos) ++ "ns"

end Duration

/-! ## Durations as people write them

A sum of spans such as `1h 2m` or `1.5s`, each an amount and a unit. Blanks may stand between the
digits of an amount, before a unit and between spans. Reading goes through the text once, character
by character, and adds each span as soon as it ends. -/

inductive TimeUnit
  | nanosecond
  | microsecond
  | millisecond
  | second
  | minute
  | hour
  | day
  | week
  | month
  | year
  deriving DecidableEq, Repr

namespace TimeUnit

/-- The unit with a name. A single `m` is a minute and a single `M` a month. -/
def ofName? (name : String) : Option TimeUnit :=
  if ["nanos", "nsec", "ns"].contains name then some .nanosecond
  else if ["usec", "us", "µs"].contains name then some .microsecond
  else if ["millis", "msec", "ms"].contains name then some .millisecond
  else if ["seconds", "second", "secs", "sec", "s"].contains name then some .second
  else if ["minutes", "minute", "min", "mins", "m"].contains name then some .minute
  else if ["hours", "hour", "hr", "hrs", "h"].contains name then some .hour
  else if ["days", "day", "d"].contains name then some .day
  else if ["weeks", "week", "wk", "wks", "w"].contains name then some .week
  else if ["months", "month", "M"].contains name then some .month
  else if ["years", "year", "yrs", "yr", "y"].contains name then some .year
  else none

/-- The length of a unit that is counted in nanoseconds when it is whole. -/
def nanos? : TimeUnit → Option Nat
  | .nanosecond => some 1
  | .microsecond => some 1000
  | .millisecond => some 1000000
  | _ => none

/-- The length in seconds, of a second and the units above. -/
def seconds : TimeUnit → Nat
  | .minute => 60
  | .hour => 3600
  | .day => 86400
  | .week => 604800
  | .month => 2630016
  | .year => 31557600
  | _ => 1

/-- The step of decimals: nanoseconds up to the minute, seconds from the hour on. A nanosecond has
no decimals. -/
def fractionStep : TimeUnit → Option (Nat × Bool)
  | .nanosecond => none
  | .microsecond => some (1000, true)
  | .millisecond => some (1000000, true)
  | .second => some (1000000000, true)
  | .minute => some (60000000000, true)
  | u => some (u.seconds, false)

end TimeUnit

/-- The ways in which a text fails to be a sum of spans. Offsets count bytes. `abort` is not
reported: a sum that exceeds the largest duration by the carry of exactly one second ends the
program. -/
inductive SpanError
  | empty
  | numberExpected (offset : Nat)
  | invalidCharacter (offset : Nat)
  | unknownUnit (name : String) (amount : Nat)
  | overflow
  | abort
  deriving DecidableEq, Repr

def SpanError.message : SpanError → String
  | .empty => "value was empty"
  | .numberExpected offset => "expected number at " ++ toString offset
  | .invalidCharacter offset => "invalid character at " ++ toString offset
  | .unknownUnit name amount =>
    if name = "" then
      "time unit needed, for example " ++ toString amount ++ "sec or " ++ toString amount ++ "ms"
    else
      "unknown time unit \"" ++ name ++ "\", supported units: "
        ++ "ns, us/µs, ms, sec, min, hours, days, weeks, months, years (and few variations)"
  | .overflow =>
    "number is too large or cannot be represented without a lack of precision "
      ++ "(values below 1ns are not supported)"
  | .abort => "the sum of the spans is out of range"

/-- The decimals of an amount: their value and how many there are. -/
structure Decimals where
  value : Nat
  count : Nat
  deriving DecidableEq, Repr

structure Span where
  amount : Nat
  decimals : Option Decimals
  unit : TimeUnit
  deriving DecidableEq, Repr

namespace Span

/-- A number of 64 bits, or too large a one. -/
def word (n : Nat) : Except SpanError Nat := if n < Nat.pow 2 64 then .ok n else .error .overflow

/-- Adds seconds and nanoseconds. More than a second of nanoseconds is carried into seconds that
are checked, exactly one second into seconds that are not. -/
def add (sum : Duration) (seconds nanos : Nat) : Except SpanError Duration := do
  let nanos ← word (sum.nanos + nanos)
  let carry := if Duration.nanosPerSecond < nanos then nanos / Duration.nanosPerSecond else 0
  let nanos := if Duration.nanosPerSecond < nanos then nanos % Duration.nanosPerSecond else nanos
  let seconds ← word (seconds + carry)
  let seconds ← word (sum.seconds + seconds)
  if nanos < Duration.nanosPerSecond then return ⟨seconds, nanos⟩
  else if seconds = Duration.maxSeconds then .error .abort
  else return ⟨seconds + 1, nanos - Duration.nanosPerSecond⟩

/-- The decimals in steps of their unit, if they are a whole number of steps. -/
def fractionSteps (step : Nat) (d : Decimals) : Except SpanError Nat := do
  let n ← word (d.value * step)
  if n % Nat.pow 10 d.count = 0 then return n / Nat.pow 10 d.count else .error .overflow

/-- Adds a span to a sum: the whole amount first, then the decimals. -/
def addTo (sum : Duration) (s : Span) : Except SpanError Duration := do
  let sum ← match s.unit.nanos? with
    | some n => do add sum 0 (← word (s.amount * n))
    | none => do add sum (← word (s.amount * s.unit.seconds)) 0
  match s.decimals, s.unit.fractionStep with
  | none, _ => return sum
  | some _, none => .error .overflow
  | some d, some (step, true) => add sum 0 (← fractionSteps step d)
  | some d, some (step, false) => add sum (← fractionSteps step d) 0

/-- Where reading stands. `first` says that no span has been read, `mark` is the offset that an
error names, and the letters of a unit are kept in reverse. Blanks between spans leave the mark
where it is, and in decimals they move it. -/
inductive Stage
  | between (first : Bool) (mark : Nat)
  | amount (n : Nat)
  | fraction (n : Nat) (decimals : Decimals) (mark : Nat)
  | unit (n : Nat) (decimals : Option Decimals) (letters : List Char)

/-- The sum of the spans that have ended, and the stage of the next one. -/
structure State where
  sum : Duration
  stage : Stage

def isUnitLetter (c : Char) : Bool :=
  ('a' ≤ c && c ≤ 'z') || ('A' ≤ c && c ≤ 'Z') || c == 'µ'

/-- Ends the span whose unit has been read. -/
def close (sum : Duration) (n : Nat) (decimals : Option Decimals) (letters : List Char) :
    Except SpanError Duration :=
  let name := String.ofList letters.reverse
  match TimeUnit.ofName? name with
  | none => .error (.unknownUnit name n)
  | some u => addTo sum ⟨n, decimals, u⟩

/-- Goes on by the character at an offset. -/
def step (offset : Nat) (c : Char) (st : State) : Except SpanError State :=
  match st.stage, Text.digit? c with
  | .between _ _, some d => .ok { st with stage := .amount d }
  | .between _ mark, none =>
    if Text.isBlank c then .ok st else .error (.numberExpected mark)
  | .amount n, some d => do
    let n ← word (n * 10 + d)
    return { st with stage := .amount n }
  | .amount n, none =>
    if Text.isBlank c then .ok st
    else if isUnitLetter c then .ok { st with stage := .unit n none [c] }
    else if c = '.' then .ok { st with stage := .fraction n ⟨0, 0⟩ offset }
    else .error (.invalidCharacter offset)
  | .fraction n f _, some d => do
    let _ ← word (Nat.pow 10 (f.count + 1))
    return { st with stage := .fraction n ⟨f.value * 10 + d, f.count + 1⟩ (offset + 1) }
  | .fraction n f mark, none =>
    if Text.isBlank c then .ok { st with stage := .fraction n f (offset + c.utf8Size) }
    else if isUnitLetter c && f.count != 0 then .ok { st with stage := .unit n (some f) [c] }
    else .error (.invalidCharacter mark)
  | .unit n f letters, some d => do
    let sum ← close st.sum n f letters
    return ⟨sum, .amount d⟩
  | .unit n f letters, none =>
    if Text.isBlank c then do
      let sum ← close st.sum n f letters
      return ⟨sum, .between false (offset + c.utf8Size)⟩
    else if isUnitLetter c then .ok { st with stage := .unit n f (c :: letters) }
    else .error (.invalidCharacter offset)

def finish (st : State) : Except SpanError Duration :=
  match st.stage with
  | .between first _ => if first then .error .empty else .ok st.sum
  | .amount n => .error (.unknownUnit "" n)
  | .fraction n f mark =>
    if f.count = 0 then .error (.invalidCharacter mark) else .error (.unknownUnit "" n)
  | .unit n f letters => close st.sum n f letters

def run (offset : Nat) (st : State) : List Char → Except SpanError Duration
  | [] => finish st
  | c :: cs => do
    let st ← step offset c st
    run (offset + c.utf8Size) st cs

end Span

/-- The duration that a text of spans adds up to. A single zero needs no unit. -/
def Duration.parse (cs : List Char) : Except SpanError Duration :=
  if cs = ['0'] then .ok {} else Span.run 0 ⟨{}, .between true 0⟩ cs

end Telemetry
