import Telemetry.Aggregator

/-! A run of the command `dial`. The program starts one task for each target, waits for all of them
and for the consumer of their lines, and writes what has been collected. A task sends one line and
ends. The program, the tasks and the consumer go on in any order, and an interrupt may come between
them. -/

namespace Telemetry.Cli

/-- The line that a task sends, and whether it has failed to reach its target. -/
structure DialJob where
  line : String
  failed : Bool
  deriving DecidableEq, Repr

/-- How far a task is: it dials, has sent its line, or has ended. -/
inductive TaskPhase
  | dialing
  | reported
  | ended
  deriving DecidableEq, Repr

structure DialTask where
  job : DialJob
  phase : TaskPhase := .dialing
  deriving DecidableEq, Repr

/-- How a run ends. -/
inductive DialEnd
  /-- All tasks have ended, and some number of them have failed. -/
  | counted (failed : Nat)
  | interrupted
  /-- The consumer could not print a line. -/
  | unprinted (fault : SinkFault)
  /-- A line that was collected could not be written, which ends the program at once. -/
  | aborted
  deriving DecidableEq, Repr

/-- How far the program is: it starts tasks, waits for them, waits for the consumer, or has exited.
What it ends with is known before the last wait, unless a line cannot be written. -/
inductive ProgramPhase
  | starting (rest : List DialJob)
  | joining
  | finishing (result : DialEnd)
  | exited (result : DialEnd)
  deriving DecidableEq, Repr

/-- What goes on next: the program, the task of a target or the consumer. A task that dials may give
up after an interrupt. -/
inductive DialEvent
  | program
  | task (index : Nat)
  | poll
  | interrupt
  | giveUp (index : Nat)
  deriving DecidableEq, Repr

structure DialRun where
  program : ProgramPhase
  tasks : List DialTask := []
  aggregator : Aggregator.State
  /-- What the consumer has given back: the lines that are not yet written. -/
  consumed : Option (Except SinkFault (List String)) := none
  /-- What the program itself has written. -/
  stdout : Sink

namespace DialRun

open Aggregator

/-- The sender of a task. The first sender is the one that all others are cloned from. -/
def senderOf (task : Nat) : Nat := task + 1

/-- No task has been started yet. The consumer collects the lines or prints them. -/
def start (jobs : List DialJob) (collect : Bool) (limits : SinkLimits) : DialRun where
  program := .starting jobs
  aggregator := (({} : State).step (if collect then .collect else .print limits)).state
  stdout := { limits := limits }

/-- Writes the lines that the consumer has given back, once it has ended. -/
def finish (r : DialRun) (result : DialEnd) : DialRun :=
  match r.consumed with
  | none => r
  | some (.error fault) => { r with program := .exited (.unprinted fault) }
  | some (.ok lines) =>
    let (stdout, fault) := r.stdout.writeLines lines
    { r with program := .exited (if fault.isSome then .aborted else result), stdout := stdout }

/-- The program starts a task with a sender of its own, and after the last one drops the first
sender. It ends after all tasks and the consumer. -/
def stepProgram (r : DialRun) : DialRun :=
  match r.program with
  | .starting (job :: rest) =>
    { r with
      program := .starting rest
      tasks := r.tasks ++ [{ job := job }]
      aggregator := (r.aggregator.step (.clone 0)).state }
  | .starting [] =>
    { r with program := .joining, aggregator := (r.aggregator.step (.dropSender 0)).state }
  | .joining =>
    if r.tasks.all (·.phase == .ended) then
      { r with program := .finishing (.counted (r.tasks.countP (·.job.failed))) }
    else r
  | .finishing result => r.finish result
  | .exited _ => r

/-- A task ends and drops its sender. -/
def endTask (r : DialRun) (index : Nat) (job : DialJob) : DialRun :=
  { r with
    tasks := r.tasks.set index ⟨job, .ended⟩
    aggregator := (r.aggregator.step (.dropSender (senderOf index))).state }

/-- A task sends its line, and then ends. -/
def stepTask (r : DialRun) (index : Nat) : DialRun :=
  match r.tasks[index]? with
  | some ⟨job, .dialing⟩ =>
    { r with
      tasks := r.tasks.set index ⟨job, .reported⟩
      aggregator := (r.aggregator.step (.send (senderOf index) job.line)).state }
  | some ⟨job, .reported⟩ => r.endTask index job
  | _ => r

/-- A task that dials ends without a line when it sees the cancellation. -/
def stepGiveUp (r : DialRun) (index : Nat) : DialRun :=
  match r.tasks[index]? with
  | some ⟨job, .dialing⟩ => if r.aggregator.cancellationSeen then r.endTask index job else r
  | _ => r

/-- What a consumer gives back by a reply. Lines that are printed already are not given back. -/
def consumedBy? : Reply → Option (Except SinkFault (List String))
  | .lines lines => some (.ok lines)
  | .printed => some (.ok [])
  | .failed fault => some (.error fault)
  | _ => none

def stepPoll (r : DialRun) : DialRun :=
  let result := r.aggregator.step .poll
  { r with
    aggregator := result.state
    consumed := (consumedBy? result.reply).or r.consumed }

/-- The program looks for an interrupt while it waits for the tasks. Then it cancels and waits for
the consumer alone. -/
def stepInterrupt (r : DialRun) : DialRun :=
  match r.program with
  | .joining =>
    { r with
      program := .finishing .interrupted
      aggregator := (r.aggregator.step .cancel).state }
  | _ => r

def step (r : DialRun) : DialEvent → DialRun
  | .program => r.stepProgram
  | .task index => r.stepTask index
  | .poll => r.stepPoll
  | .interrupt => r.stepInterrupt
  | .giveUp index => r.stepGiveUp index

def run (r : DialRun) (events : List DialEvent) : DialRun := events.foldl step r

/-- How the run has ended, if it has. -/
def result? (r : DialRun) : Option DialEnd :=
  match r.program with
  | .exited result => some result
  | _ => none

/-- What has been written: by the consumer, and then by the program. -/
def output (r : DialRun) : Bytes :=
  ((r.aggregator.sink.map (·.written)).getD []) ++ r.stdout.written

/-- The program, each of some tasks and the consumer go on once. -/
def turn (tasks : Nat) : List DialEvent := .program :: (List.range tasks).map .task ++ [.poll]

/-- As many turns as a run may need. -/
def turns (tasks : Nat) : List DialEvent := (List.replicate (3 * tasks + 4) (turn tasks)).flatten

end DialRun

end Telemetry.Cli
