import Outbox.Cli.Program

/-!
# The executable

Finds the files that the arguments name, runs the program, and prints what it says.
-/

namespace Outbox.Cli

/-- The bytes of a file, if it can be read. -/
def readBytes (file : String) : IO (Option ByteArray) := do
  try
    let bytes ← IO.FS.readBinFile file
    return some bytes
  catch _ => return none

end Outbox.Cli

/-- Runs the program on the arguments. -/
def main (args : List String) : IO UInt32 := do
  let names := ((Outbox.Cli.Command.read? args).map Outbox.Cli.Command.files).getD []
  let found ← names.mapM fun file => do
    let bytes ← Outbox.Cli.readBytes file
    return (file, bytes)
  let ending := Outbox.Cli.run args fun file => (found.lookup file).join
  let stdout ← IO.getStdout
  stdout.putStr ending.output
  if let some message := ending.message then
    let stderr ← IO.getStderr
    stderr.putStrLn message
  return ending.exit.toUInt32
