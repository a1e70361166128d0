import Telemetry.Cancellation
import Telemetry.Log
import Telemetry.Sink
import Telemetry.Text.Decimal

/-! The aggregator: lines of many senders come to one consumer, which collects or prints them in the
order of their arrival until the cancellation fires or no sender is left. Each step of a sender, of
the cancellation or of the consumer is an action on one state. -/

namespace Telemetry.Aggregator

/-- What a consumer does with the lines. -/
inductive Output
  | collect (lines : List String)
  | print (sink : Sink) (fault : Option SinkFault)
  deriving DecidableEq, Repr

namespace Output

/-- Takes a line. After a fault nothing more is written. -/
def handle (o : Output) (line : String) : Output :=
  match o with
  | .collect lines => .collect (lines ++ [line])
  | .print sink (some fault) => .print sink (some fault)
  | .print sink none =>
    let (sink, fault) := sink.writeLine line
    .print sink fault

def isFine : Output → Bool
  | .collect _ => true
  | .print _ fault => fault.isNone

/-- Takes lines up to the first fault, and counts the lines that were taken. -/
def handleAll (o : Output) (processed : Nat) : List String → Output × Nat
  | [] => (o, processed)
  | line :: lines =>
    let o := o.handle line
    if o.isFine then o.handleAll (processed + 1) lines else (o, processed + 1)

@[simp] theorem handleAll_collect (taken : List String) (n : Nat) (lines : List String) :
    (collect taken).handleAll n lines = (.collect (taken ++ lines), n + lines.length) := by
  induction lines generalizing taken n with
  | nil => simp [handleAll]
  | cons line lines ih => simp [handleAll, handle, isFine, ih, Nat.add_assoc, Nat.add_comm 1]

end Output

/-- The consumer: not yet there, at work after a number of lines, or gone. -/
inductive Consumer
  | unclaimed
  | running (output : Output) (processed : Nat)
  | finished
  | dropped
  deriving DecidableEq, Repr

structure State where
  /-- The lines that have been sent and not been handled, in order. -/
  queue : List String := []
  accepting : Bool := true
  /-- Which senders are alive. -/
  senders : List Bool := [true]
  signal : CancelSignal := {}
  waits : List CancelWait := []
  consumer : Consumer := .unclaimed
  /-- The sink of a printing consumer, also after its end. -/
  sink : Option Sink := none
  deriving DecidableEq, Repr

inductive Action
  | send (sender : Nat) (line : String)
  | clone (sender : Nat)
  | dropSender (sender : Nat)
  | cancel
  | dropHandle
  | wait
  | pollWait (wait : Nat)
  | collect
  | print (limits : SinkLimits)
  | poll
  | dropConsumer
  deriving DecidableEq, Repr

inductive Reply
  | done
  | sent
  | refused
  | sender (index : Nat)
  | resolved (yes : Bool)
  | pending
  | lines (lines : List String)
  | printed
  | failed (fault : SinkFault)
  | noSender
  | noHandle
  | notApplicable
  deriving DecidableEq, Repr

/-- What a refused sender is told. -/
def refusedMessage : String := "The aggregator has stopped accepting output"

structure Result where
  reply : Reply
  state : State
  logs : List LogRecord := []
  deriving DecidableEq, Repr

/-- Why a consumer ends. -/
inductive Ending
  | cancelled
  | sendersGone
  | outputFailed
  deriving DecidableEq, Repr

def Ending.message : Ending → String
  | .cancelled => "aggregator stopped, cancelled"
  | .sendersGone => "aggregator stopped, all producers finished"
  | .outputFailed => "aggregator stopped, output failed"

/-- What a consumer gives back at its end. -/
def Output.reply : Output → Reply
  | .collect lines => .lines lines
  | .print _ none => .printed
  | .print _ (some fault) => .failed fault

def Output.sink? : Output → Option Sink
  | .collect _ => none
  | .print sink _ => some sink

namespace State

def isAlive (s : State) (sender : Nat) : Bool := s.senders.getD sender false

def hasSenders (s : State) : Bool := s.senders.any id

/-- What each sender that is alive sees of the aggregator. -/
def closedViews (s : State) : List (Option Bool) :=
  s.senders.map fun alive => if alive then some !s.accepting else none

/-- A consumer that waits for the cancellation would not wait. This is asked of a wait of its own
each time: one that is kept while nothing happens resolves at the same polls. -/
def cancellationSeen (s : State) : Bool := CancelWait.fresh.poll s.signal == .resolved

theorem cancellationSeen_eq (s : State) : s.cancellationSeen = s.signal.isCancelled := by
  rw [cancellationSeen, Bool.eq_iff_iff, beq_iff_eq, CancelWait.poll_fresh]

def finish (s : State) (output : Output) (processed : Nat) (ending : Ending) : Result where
  reply := output.reply
  state :=
    { s with queue := [], accepting := false, consumer := .finished, sink := output.sink? }
  logs :=
    [⟨.debug, ending.message, [("processed", String.ofList (Text.decimal processed))]⟩]

/-- The consumer waits for more. -/
def suspend (s : State) (output : Output) (processed : Nat) : Result where
  reply := .pending
  state := { s with queue := [], consumer := .running output processed, sink := output.sink? }

/-- The loop of a consumer over the lines that wait for it. The cancellation is looked at before
each line. Once it is seen, the lines that are left are taken up to the first fault. -/
def consume (s : State) (output : Output) (processed : Nat) : List String → Result
  | [] =>
    if s.cancellationSeen then s.finish output processed .cancelled
    else if s.hasSenders then s.suspend output processed
    else s.finish output processed .sendersGone
  | line :: lines =>
    if s.cancellationSeen then
      let (output, processed) := output.handleAll processed (line :: lines)
      s.finish output processed .cancelled
    else
      let output := output.handle line
      if output.isFine then s.consume output (processed + 1) lines
      else s.finish output (processed + 1) .outputFailed

/-- Polls a consumer: it takes the lines that have been sent, and then ends or waits for more. -/
def pollConsumer (s : State) (output : Output) (processed : Nat) : Result :=
  s.consume output processed s.queue

def claim (s : State) (output : Output) : Result :=
  match s.consumer with
  | .unclaimed => ⟨.done, { s with consumer := .running output 0, sink := output.sink? }, []⟩
  | _ => ⟨.notApplicable, s, []⟩

def step (s : State) (action : Action) : Result :=
  match action with
  | .send sender line =>
    if !s.isAlive sender then ⟨.noSender, s, []⟩
    else if s.accepting then ⟨.sent, { s with queue := s.queue ++ [line] }, []⟩
    else ⟨.refused, s, []⟩
  | .clone sender =>
    if s.isAlive sender then
      ⟨.sender s.senders.length, { s with senders := s.senders ++ [true] }, []⟩
    else ⟨.noSender, s, []⟩
  | .dropSender sender =>
    if s.isAlive sender then ⟨.done, { s with senders := s.senders.set sender false }, []⟩
    else ⟨.noSender, s, []⟩
  | .cancel =>
    if s.signal.handleAlive then ⟨.done, { s with signal := s.signal.fire }, []⟩
    else ⟨.noHandle, s, []⟩
  | .dropHandle => ⟨.done, { s with signal := s.signal.dropHandle }, []⟩
  | .wait => ⟨.done, { s with waits := s.waits ++ [.fresh] }, []⟩
  | .pollWait wait =>
    match s.waits[wait]? with
    | none => ⟨.notApplicable, s, []⟩
    | some w =>
      let w := w.poll s.signal
      ⟨.resolved (w == .resolved), { s with waits := s.waits.set wait w }, []⟩
  | .collect => s.claim (.collect [])
  | .print limits => s.claim (.print { limits := limits } none)
  | .poll =>
    match s.consumer with
    | .running output processed => s.pollConsumer output processed
    | _ => ⟨.notApplicable, s, []⟩
  | .dropConsumer =>
    ⟨.done, { s with queue := [], accepting := false, consumer := .dropped }, []⟩

def run (s : State) : List Action → List Result
  | [] => []
  | action :: actions =>
    let r := s.step action
    r :: r.state.run actions

end State

end Telemetry.Aggregator
