import FlatMachine.CommandLine.Program

/-!
# The command line tool

Reads the image that the command line names, if it names one, and prints what the
program shows.
-/

namespace FlatMachine.CommandLine

/-- Reads a file. A name that leads through a file cannot be opened, whereas a
directory can be opened and then not read, so only the first error has a name. -/
def readImage (path : String) : IO (Except ReadError (List UInt8)) := do
  try
    let contents ← IO.FS.readBinFile path
    pure (.ok contents.toList)
  catch
    | .noFileOrDirectory .. => pure (.error .notFound)
    | .inappropriateType (some _) .. => pure (.error .notADirectory)
    | .inappropriateType .. => pure (.error .isADirectory)
    | .invalidArgument _ _ "name too long" => pure (.error .nameTooLong)
    | e => pure (.error (.other (toString e)))

/-- The image that a command line names. -/
def imagePath? (arguments : List String) : Option String :=
  match parse arguments with
  | .ok (.run o) => o.image
  | _ => none

end FlatMachine.CommandLine

open FlatMachine.CommandLine in
/-- Runs the program on the command line. -/
def main (arguments : List String) : IO UInt32 := do
  let image ← match imagePath? arguments with
    | some path => readImage path
    | none => pure (.error .notFound)
  match program (fun _ => image) arguments with
  | .ok shown =>
    IO.print shown
    pure 0
  | .error e =>
    IO.eprintln e.message
    pure e.exitStatus
