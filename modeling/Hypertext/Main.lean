import Hypertext.CommandLine

/-!
# The program

Brings the arguments and the bytes of the standard input to the command and writes its outcome.
-/

namespace Hypertext

/-- Reads a stream to its end. -/
partial def readAll (stream : IO.FS.Stream) (read : ByteArray) : IO ByteArray := do
  let more ← stream.read 65536
  if more.isEmpty then return read else readAll stream (read ++ more)

/-- Writes an outcome. -/
def Outcome.write (o : Outcome) : IO UInt32 := do
  (← IO.getStdout).putStr o.output
  (← IO.getStderr).putStr o.errors
  return o.code.toUInt32

end Hypertext

/-- Runs the command. -/
def main (arguments : List String) : IO UInt32 := do
  match Hypertext.Invocation.ofArguments (arguments.map Hypertext.CommandLine.bytes) with
  | .error e => e.outcome.write
  | .ok i => (i.run (← Hypertext.readAll (← IO.getStdin) .empty).toList).write
