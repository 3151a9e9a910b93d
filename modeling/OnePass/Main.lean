import OnePass.Command

/-!
# The program

Runs the command on the files of the system.
-/

namespace OnePass.Command

/-- The number of a reason; while a file is opened it is told as a negative number of 32
bits. -/
def reasonOfCode (code : UInt32) : Nat :=
  if code.toNat < 0x80000000 then code.toNat else UInt32.size - code.toNat

/-- Why the system refuses to read a file. -/
def readErrorOf : IO.Error → ReadError
  | .alreadyExists _ code _ | .interrupted _ code _ | .noFileOrDirectory _ code _
  | .invalidArgument _ code _ | .permissionDenied _ code _ | .resourceExhausted _ code _
  | .inappropriateType _ code _ | .noSuchThing _ code _ => .system (reasonOfCode code)
  | .otherError code _ | .resourceBusy code _ | .resourceVanished code _
  | .unsupportedOperation code _ | .hardwareFault code _ | .unsatisfiedConstraints code _
  | .illegalOperation code _ | .protocolError code _ | .timeExpired code _ =>
    .system (reasonOfCode code)
  | .unexpectedEof | .userError _ => .system 5

/-- Reads a file of the system. -/
def readFile (path : String) : IO (Except ReadError ByteArray) := do
  try
    return .ok (← IO.FS.readBinFile path)
  catch e =>
    return .error (readErrorOf e)

end OnePass.Command

def main (arguments : List String) : IO UInt32 := do
  let outcome ← OnePass.Command.run OnePass.Command.readFile arguments
  (← IO.getStdout).putStr outcome.stdout
  (← IO.getStderr).putStr outcome.stderr
  return outcome.exit.toUInt32
