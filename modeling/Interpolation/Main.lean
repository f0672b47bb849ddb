import Interpolation.Command.Run

/-!
# The program

Reads the arguments and, if the command asks for it, the standard input; then prints the outcome.
-/

namespace Interpolation

/-- The bytes on the standard input, unless it is a terminal. -/
def readStdin : IO (Option ByteArray) := do
  let stdin ← IO.getStdin
  if ← stdin.isTty then return none
  let mut bytes := ByteArray.empty
  repeat
    let chunk ← stdin.read 65536
    if chunk.isEmpty then break
    bytes := bytes ++ chunk
  return some bytes

/-- Prints an outcome and returns its status. -/
def report (o : Outcome) : IO UInt32 := do
  (← IO.getStdout).putStr (String.ofList o.out)
  (← IO.getStderr).putStr (String.ofList o.err)
  return o.status.toUInt32

end Interpolation

open Interpolation in
def main (args : List String) : IO UInt32 := do
  match Arguments.read? (args.map String.toList) with
  | none => report .usage
  | some request =>
    let stdin ← if request.readsStdin then readStdin else pure none
    report (request.outcome stdin)
