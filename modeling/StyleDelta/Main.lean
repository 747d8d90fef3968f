import StyleDelta.Cli.Run

/-!
The program. It reads the arguments, the files they name and the environment, and
writes what `Cli.run` says.
-/

namespace StyleDelta

def usage : String :=
  "Usage: styledelta compare [-f text|json] [-q] [-v]... FIRST SECOND\n" ++
  "Compares two CSS trees in JSON; a path - stands for the standard input.\n"

def readFile (path : String) : IO (Except ReadFailure ByteArray) := do
  try return .ok (← IO.FS.readBinFile path)
  catch
    | .noFileOrDirectory .. => return .error .notFound
    | .inappropriateType .. => return .error .isDirectory
    | error => return .error (.other (toString error))

/-- The inputs that a command names, and nothing else. -/
def surroundingsOf (command : Cli.Command) : IO Cli.Surroundings := do
  let paths := [command.first, command.second]
  let files ← (paths.filter (!Cli.isStdin ·)).mapM fun path => return (path, ← readFile path)
  let stdin ← if paths.countP Cli.isStdin = 1 then (← IO.getStdin).readBinToEnd else pure .empty
  return ⟨fun path => (files.lookup path).getD (.error .notFound), stdin⟩

def runCommand (command : Cli.Command) : IO UInt32 := do
  let outcome := Cli.run (← surroundingsOf command) command
  let filter := Cli.logFilter (← IO.getEnv "RUST_LOG") command.verbosity
  for line in outcome.logLines filter do IO.eprintln line
  IO.print outcome.stdout
  IO.eprint outcome.stderr
  return outcome.status.toUInt32

end StyleDelta

def main (arguments : List String) : IO UInt32 := do
  match StyleDelta.Cli.Command.ofArguments arguments with
  | .ok command => StyleDelta.runCommand command
  | .error .help => do
    IO.print StyleDelta.usage
    return 0
  | .error _ => do
    IO.eprint StyleDelta.usage
    return 2
