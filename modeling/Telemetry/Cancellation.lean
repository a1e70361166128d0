/-! Cancellation: a handle that fires once for all, the signal that observers look at, and the waits
that resolve when it fires. A dropped handle counts as fired. -/

namespace Telemetry

/-- What the handle and the observers share. The version grows each time the value is set. -/
structure CancelSignal where
  fired : Bool := false
  version : Nat := 0
  handleAlive : Bool := true
  deriving DecidableEq, Repr

namespace CancelSignal

def fire (s : CancelSignal) : CancelSignal := { s with fired := true, version := s.version + 1 }

def dropHandle (s : CancelSignal) : CancelSignal := { s with handleAlive := false }

def isCancelled (s : CancelSignal) : Bool := s.fired || !s.handleAlive

end CancelSignal

/-- A wait for a signal. It looks at the value when it is first polled, and after that only when the
version differs from the one it has seen. -/
inductive CancelWait
  | fresh
  | seen (version : Nat)
  | resolved
  deriving DecidableEq, Repr

namespace CancelWait

/-- The value has been looked at in a version. Without a handle there is nothing to wait for. -/
def look (s : CancelSignal) : CancelWait :=
  if s.fired || !s.handleAlive then .resolved else .seen s.version

/-- What a poll leaves of a wait. -/
def poll (s : CancelSignal) : CancelWait → CancelWait
  | .fresh => look s
  | .seen version =>
    if s.version ≠ version then look s
    else if s.handleAlive then .seen version
    else .resolved
  | .resolved => .resolved

/-- A wait that has not been polled yet resolves if the signal is cancelled, and only then. -/
theorem poll_fresh {s : CancelSignal} : fresh.poll s = .resolved ↔ s.isCancelled = true := by
  rw [poll, look, CancelSignal.isCancelled]
  cases s.fired <;> cases s.handleAlive <;> simp

end CancelWait

end Telemetry
