import Telemetry.Cli.Arguments
import Telemetry.Cli.DialRun
import Telemetry.Cli.Style

/-! The program: from arguments, files, variables and the network to what is written and the status
that it ends with. -/

namespace Telemetry.Cli

def versionLine : String := "gnmi-cli 0.1.0"

def abortStatus : Nat := 101

structure Exit where
  status : Nat
  output : Bytes := []
  errors : String := ""
  deriving DecidableEq, Repr

structure Surroundings where
  environment : Environment
  files : Files
  network : Network
  style : Style := {}
  /-- What the output takes. -/
  stdout : SinkLimits := {}
  /-- The order in which the program, the tasks and the consumer go on. After it they go on in
  turn. -/
  schedule : List DialEvent := []

/-- Arguments that are not run. The text of the help is not part of this library. -/
def UsageFault.exit : UsageFault → Exit
  | .help => { status := 0 }
  | .version => { status := 0, output := Text.utf8 (versionLine ++ "\n") }
  | _ => { status := 2 }

/-- A target and what came of dialing it. -/
structure TargetReport where
  target : String
  result : Except DialFault Connection

namespace TargetReport

/-- The line of a target, behind its name in brackets if lines are labelled. -/
def line (style : Style) (labelled : Bool) (r : TargetReport) : String :=
  let text := style.outcome r.result
  if labelled then "[" ++ r.target ++ "] " ++ text else text

def hasFailed (r : TargetReport) : Bool :=
  match r.result with
  | .ok _ => false
  | .error _ => true

end TargetReport

namespace Surroundings

def failed (s : Surroundings) (reason : String) : Exit where
  status := 1
  errors := displayed (s.style.failure "Failed:" reason) ++ "\n"

/-- Dials the targets of some arguments. -/
def report (s : Surroundings) (d : Dialer) (a : Arguments) : List TargetReport :=
  a.targets.map fun target => ⟨target, (d.dial s.environment s.network target).result⟩

/-- What the program leaves behind at the end of a run. -/
def exitOf (s : Surroundings) (output : Bytes) : DialEnd → Exit
  | .counted failed => { status := if failed = 0 then 0 else 1, output := output }
  | .interrupted => { s.failed "interrupted before every target was dialed" with output := output }
  | .unprinted fault => { s.failed fault.message with output := output }
  | .aborted => { status := abortStatus, output := output }

/-- The run that reports on some targets, before its first step. -/
def started (s : Surroundings) (a : Arguments) (reports : List TargetReport) : DialRun :=
  .start (reports.map fun r => ⟨r.line s.style a.labelled, r.hasFailed⟩) a.collect s.stdout

/-- What is left behind by reporting on some targets, if that has ended after some events. -/
def exitAfter (s : Surroundings) (a : Arguments) (reports : List TargetReport)
    (events : List DialEvent) : Option Exit :=
  let run := (s.started a reports).run events
  run.result?.map (s.exitOf run.output)

/-- Reports on some targets. The turns end every run, so that there always is an exit. -/
def reportAll (s : Surroundings) (a : Arguments) (reports : List TargetReport) : Exit :=
  (s.exitAfter a reports (s.schedule ++ DialRun.turns reports.length)).getD
    { status := abortStatus }

def dial (s : Surroundings) (a : Arguments) : Exit :=
  match a.config with
  | .error f =>
    let fault := DialFault.config f
    s.failed (Style.withCauses "invalid connection settings" (fault.message :: fault.causes))
  | .ok config =>
    match (Dialer.ofConfig s.files config).1 with
    | .error fault =>
      if fault.aborts then { status := abortStatus }
      else s.failed (Style.withCauses fault.message fault.causes)
    | .ok d => s.reportAll a (s.report d a)

def run (s : Surroundings) (args : List String) : Exit :=
  match Arguments.parse args with
  | .error fault => fault.exit
  | .ok a => s.dial a

end Surroundings

end Telemetry.Cli
