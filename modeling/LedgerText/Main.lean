import LedgerText.Command

/-!
# The program

Reads the file that the arguments name, and writes what the check command leaves
behind to the two outputs.
-/

namespace LedgerText

/-- The system's number for the error of reading a directory. -/
def Stored.directoryCode : UInt32 := 21

/-- Reads what is stored under a path. Below a file there is nothing. -/
def Stored.load (path : String) : IO Stored := do
  try
    return .bytes (← IO.FS.readBinFile path)
  catch
    | .noFileOrDirectory .. => return .nothing
    | .inappropriateType _ code _ =>
        return if code = directoryCode then .directory else .nothing
    | error => return .unreadable (toString error)

end LedgerText

open LedgerText

/-- Runs the check command. -/
def main (words : List String) : IO UInt32 := do
  match Arguments.ofWords words with
  | .error stop => do
      if stop.exitStatus = 0 then IO.print stop.message else IO.eprint stop.message
      return stop.exitStatus.toUInt32
  | .ok arguments => do
      let outcome := arguments.check .coloured (← Stored.load arguments.file)
      IO.print outcome.output
      IO.eprint outcome.errorOutput
      return outcome.exitStatus.toUInt32
