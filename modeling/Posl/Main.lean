import Posl.Command.Run

/-!
# The program

Reads what a command line asks for, and writes what the run leaves behind.
-/

namespace Posl

/-- The bytes up to the end of a stream. -/
partial def readAllBytes (stream : IO.FS.Stream) (read : ByteArray) : IO ByteArray := do
  let chunk ← stream.read 65536
  if chunk.isEmpty then return read else readAllBytes stream (read ++ chunk)

def readContent (file : String) : IO FileContent := do
  try
    return .bytes (← IO.FS.readBinFile file).toList
  catch error =>
    match error with
    | .inappropriateType .. => return .directory
    | _ => return .missing

/-- What a command can see of the system.  Only what it reads is fetched. -/
def environmentFor (command : Command) : IO Environment := do
  let stdout ← IO.getStdout
  let content ←
    match command.file? with
    | some file => readContent file
    | none => pure .missing
  let input ←
    if command.readsInput then do pure (← readAllBytes (← IO.getStdin) .empty).toList
    else pure []
  let colored :=
    colorsEnabled (← IO.getEnv "CLICOLOR_FORCE") (← IO.getEnv "NO_COLOR") (← IO.getEnv "CLICOLOR")
      (← stdout.isTty)
  return { input, file := fun _ => content, colored }

def report (result : RunResult) : IO UInt32 := do
  IO.print result.output
  IO.eprint result.errorOutput
  return .ofNat result.status

def runMain (arguments : List String) : IO UInt32 := do
  let environment ←
    match Invocation.ofArguments arguments with
    | .ok (.perform command) => environmentFor command
    | _ => pure { input := [], file := fun _ => .missing, colored := false }
  report (runArguments environment arguments)

end Posl

def main (arguments : List String) : IO UInt32 := Posl.runMain arguments
