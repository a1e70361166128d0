import Telemetry.Text.Bytes

/-! Sinks: places that take a limited number of bytes, some at a time, and what it means to write a
whole line to one. -/

namespace Telemetry

inductive SinkFault
  | closed
  | flushFailed
  | nothingWritten
  deriving DecidableEq, Repr

def SinkFault.message : SinkFault → String
  | .closed => "sink closed"
  | .flushFailed => "flush failed"
  | .nothingWritten => "failed to write whole buffer"

structure SinkLimits where
  /-- How many bytes it takes in all. -/
  capacity : Option Nat := none
  /-- How many bytes it takes at a time. -/
  chunk : Option Nat := none
  /-- The places, counted from the first byte, at which a write ends that has begun before them. With
  them the pieces may have any lengths. -/
  breaks : List Nat := []
  /-- A full sink takes nothing instead of failing. -/
  zeroAtCapacity : Bool := false
  /-- The number of the flush that fails, counted from one. -/
  failFlush : Option Nat := none
  deriving DecidableEq, Repr

structure Sink where
  limits : SinkLimits := {}
  written : Bytes := []
  flushes : Nat := 0
  deriving DecidableEq, Repr

namespace SinkLimits

/-- The smaller of a number and a limit that may be missing. -/
def atMost : Option Nat → Nat → Nat
  | none, n => n
  | some m, n => min m n

/-- How many of `n` bytes are taken up to the next break after `used` bytes. -/
def toBreak (used n : Nat) : List Nat → Nat
  | [] => n
  | b :: bs => toBreak used (if used < b then min (b - used) n else n) bs

def piece (l : SinkLimits) (used n : Nat) : Nat := atMost l.chunk (toBreak used n l.breaks)

/-- How many of `n` bytes are taken at once after `used` bytes. -/
def accept (l : SinkLimits) (used n : Nat) : Except SinkFault Nat :=
  match l.capacity with
  | none => .ok (l.piece used n)
  | some capacity =>
    if capacity ≤ used then if l.zeroAtCapacity then .ok 0 else .error .closed
    else .ok (l.piece used (min (capacity - used) n))

/-- Writes `n` bytes piece by piece: how many are taken, and the fault that ends the writing. -/
def acceptAll (l : SinkLimits) (used n : Nat) : Nat × Option SinkFault :=
  if n = 0 then (0, none)
  else
    match l.accept used n with
    | .error fault => (0, some fault)
    | .ok 0 => (0, some .nothingWritten)
    | .ok (m + 1) =>
      let (more, fault) := l.acceptAll (used + (m + 1)) (n - (m + 1))
      (m + 1 + more, fault)
termination_by n

end SinkLimits

namespace Sink

/-- Writes bytes until all are written or a fault arises. -/
def writeAll (s : Sink) (bs : Bytes) : Sink × Option SinkFault :=
  let (n, fault) := s.limits.acceptAll s.written.length bs.length
  ({ s with written := s.written ++ bs.take n }, fault)

def flush (s : Sink) : Sink × Option SinkFault :=
  let s := { s with flushes := s.flushes + 1 }
  (s, if s.limits.failFlush = some s.flushes then some .flushFailed else none)

def lineEnd : UInt8 := 10

/-- Writes a line, then its end, and flushes. The first fault ends it. -/
def writeLine (s : Sink) (line : String) : Sink × Option SinkFault :=
  match s.writeAll (Text.utf8 line) with
  | (s, some fault) => (s, some fault)
  | (s, none) =>
    match s.writeAll [lineEnd] with
    | (s, some fault) => (s, some fault)
    | (s, none) => s.flush

/-- Writes lines with their ends, each at once, up to the first fault. -/
def writeLines (s : Sink) : List String → Sink × Option SinkFault
  | [] => (s, none)
  | line :: lines =>
    match s.writeAll (Text.utf8 line ++ [lineEnd]) with
    | (s, some fault) => (s, some fault)
    | (s, none) => s.writeLines lines

end Sink

end Telemetry
