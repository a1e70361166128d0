import Telemetry.Cli.Program

/-! The outer layer of the program: it reads the variables and the files that the arguments name,
and writes what a run leaves behind. No stream is opened from here, so that every target that is
dialed is unreachable. -/

open Telemetry

private def fileFault : IO.Error → FileFault
  | .noFileOrDirectory .. => .notFound
  | .inappropriateType .. => .isADirectory
  | e => .other (toString e)

private def readFile (path : String) : IO (String × Except FileFault Bytes) := do
  try return (path, .ok (← IO.FS.readBinFile path).data.toList)
  catch e => return (path, .error (fileFault e))

private def readVariable (name : String) : IO (String × Option String) :=
  return (name, ← IO.getEnv name)

/-- The paths of files that have to be read for some arguments. -/
private def neededPaths (args : List String) : List String :=
  match Cli.Arguments.parse args with
  | .ok a => a.paths
  | .error _ => []

def main (args : List String) : IO UInt32 := do
  let values ← (Proxy.proxyVariables ++ Proxy.exclusionVariables).mapM readVariable
  let files ← (neededPaths args).mapM readFile
  let surroundings : Cli.Surroundings :=
    { environment := fun name => (values.lookup name).join
      files := .ofList files
      network := .offline }
  let exit := surroundings.run args
  (← IO.getStdout).write ⟨exit.output.toArray⟩
  (← IO.getStderr).putStr exit.errors
  return UInt32.ofNat exit.status
