import HighlightGraph.CommandLine.Run
/-!
# The program

The command on the files of the system. No layout program is run from here.
-/

namespace HighlightGraph.CommandLine

/-- The number of an error of the system. Some operations on files give it with its sign turned. -/
def errorNumber (code : UInt32) : Nat := min code.toNat (-code).toNat

/-- The error that an operation on a file of the system ends with, if it is one that is told. -/
def FileError.ofSystem? : IO.Error → Option FileError
  | .noFileOrDirectory .. => some .notFound
  | .permissionDenied .. => some .denied
  | .inappropriateType _ code _ =>
    match errorNumber code with
    | 20 => some .notADirectory
    | 21 => some .isADirectory
    | _ => none
  | .invalidArgument _ code _ => if errorNumber code = 36 then some .nameTooLong else none
  | _ => none

def toldErrors {α : Type} (operation : IO α) : IO (Except FileError α) := do
  try
    return .ok (← operation)
  catch e =>
    match FileError.ofSystem? e with
    | some told => return .error told
    | none => throw e

def systemFiles : Files IO where
  read path := toldErrors (IO.FS.readBinFile (Path.ofString path).toString)
  write path content := toldErrors (IO.FS.writeBinFile (Path.ofString path).toString content)

end HighlightGraph.CommandLine

open HighlightGraph HighlightGraph.CommandLine in
/-- Performs the command on the files of the system. -/
def main (arguments : List String) : IO UInt32 := do
  match ← (perform arguments Engine.absent systemFiles).run with
  | .ok report =>
    IO.print report.out
    IO.eprint report.err
    return UInt32.ofNat report.code
  | .error failure =>
    IO.eprintln ((failure.message?).getD "The call has ended without a report.")
    return 1
