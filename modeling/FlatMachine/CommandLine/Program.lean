import FlatMachine.CommandLine.Arguments
import FlatMachine.Image.Boot
import FlatMachine.Machine.Dump
import FlatMachine.Script

/-!
# The program

Sets up a machine, from an image or blank, runs a script on it and shows the
console, the print buffer and the heap, and memory from the start of the stack to
the heap's cursor if asked. Files are read through a function from names to
contents, so that the program itself is a plain function of what it is given.
-/

namespace FlatMachine.CommandLine

/-- Why a file cannot be read. -/
inductive ReadError where
  | notFound
  | notADirectory
  | isADirectory
  | nameTooLong
  | other (reason : String)
deriving DecidableEq, Repr

/-- What the user reads. -/
def ReadError.message : ReadError → String
  | notFound => "No such file or directory (os error 2)"
  | notADirectory => "Not a directory (os error 20)"
  | isADirectory => "Is a directory (os error 21)"
  | nameTooLong => "File name too long (os error 36)"
  | other reason => reason

/-- Why the program cannot do what it was asked for. -/
inductive Failure where
  | usage (e : UsageError)
  | unreadable (path : String) (e : ReadError)
  | unbootable (path : String) (e : SetupError)
  | setup (e : SetupError)
  | fault (e : Fault)
deriving DecidableEq, Repr

namespace Failure

/-- A complaint with the reason for it. -/
def because (complaint reason : String) : String :=
  "Error: " ++ complaint ++ "\n\nCaused by:\n    " ++ reason

/-- What the user reads. -/
def message : Failure → String
  | usage e => e.message
  | unreadable path e => because ("failed to read image " ++ path) e.message
  | unbootable path e => because ("failed to boot " ++ path) e.message
  | setup e => "Error: " ++ e.message
  | fault e => e.message

/-- The status with which the program ends. -/
def exitStatus : Failure → UInt32
  | usage _ => 2
  | fault _ => 101
  | _ => 1

end Failure

/-- The name and version of the program. -/
def versionText : String := "scratch_host 0.1.0\n"

/-- The number that an option stands for where it is not given, for options that have
one. -/
def Name.default? : Name → Option UInt32
  | .memorySize => some Layout.defaultMemorySize
  | .stackSize => some Layout.defaultStackSize
  | _ => none

/-- The width of the widest option, to the right of which the help tells what each of
them does. -/
def helpColumn : Nat :=
  Name.all.foldl (fun width n => max width n.label.length) 0

/-- A line of help for an option. -/
def helpLine (n : Name) : String :=
  let short := match n.short? with
    | some c => "  -" ++ String.singleton c ++ ", "
    | none => "      "
  let default := match n.default? with
    | some w => " [default: " ++ toString w.toNat ++ "]"
    | none => ""
  short ++ String.ofList (n.label.toList.rightpad helpColumn ' ') ++ "  " ++ n.about ++
    default ++ "\n"

/-- What the program is for, and a summary of the options. -/
def helpText : String :=
  "Runs a guest session on the scratch VM host model and prints its output\n\n" ++
    "Usage: scratch_host [OPTIONS]\n\nOptions:\n" ++ String.join (Name.all.map helpLine)

/-- The machine that a set-up answers with, or the failure that a refusal is. -/
def machineOf (refusal : SetupError → Failure) :
    Except Fault (Except SetupError Machine) → Except Failure Machine
  | .error e => .error (.fault e)
  | .ok (.error e) => .error (refusal e)
  | .ok (.ok m) => .ok m

/-- The machine that the options ask for. -/
def machineFor (read : String → Except ReadError (List UInt8)) (o : Options) :
    Except Failure Machine :=
  match o.image with
  | some path =>
    match read path with
    | .error e => .error (.unreadable path e)
    | .ok image => machineOf (.unbootable path) (Machine.boot image)
  | none =>
    let layout : Layout :=
      { Layout.blank with
        memorySize := o.memorySize.getD Layout.defaultMemorySize
        stackSize := o.stackSize.getD Layout.defaultStackSize }
    machineOf .setup (Machine.ofLayout layout)

/-- The lines that list the blocks of a report. -/
def blockLines (r : Report) : List String :=
  r.allocations.zipIdx.map fun entry =>
    "[" ++ toString entry.2 ++ "] " ++ Text.hexNumber entry.1.toNat ++ "\n"

/-- What is shown after a script. -/
def summary (m : Machine) (r : Report) : String :=
  "--- Console ---\n" ++ m.consoleText ++
    "--- Print Buffer ---\n" ++ r.printBuffer.text ++ "\n" ++
    "--- Heap ---\n" ++ String.join (blockLines r) ++
    "cursor: " ++ Text.hexNumber r.cursor.toNat ++ "  halted: " ++ Text.ofBool r.halted ++ "\n"

/-- Memory from the start of the stack to the heap's cursor, nothing if that is
empty. -/
def usedMemory (m : Machine) (r : Report) : Except Fault String := do
  let start := (← m.stackStart).toNat
  let stop := min r.cursor.toNat m.memory.size
  if start < stop then m.dump start stop else pure ""

/-- Runs the script that the options ask for, and shows what came of it. -/
def execute (read : String → Except ReadError (List UInt8)) (o : Options) :
    Except Failure String :=
  match machineFor read o with
  | .error e => .error e
  | .ok m =>
    match Script.run ⟨o.messages, o.allocations⟩ m with
    | .error e _ => .error (.fault e)
    | .ok r m' =>
      if o.dump then
        match usedMemory m' r with
        | .error e => .error (.fault e)
        | .ok dump => .ok (summary m' r ++ dump)
      else
        .ok (summary m' r)

/-- The whole program: what it shows for a command line, or why it fails. -/
def program (read : String → Except ReadError (List UInt8)) (arguments : List String) :
    Except Failure String :=
  match parse arguments with
  | .error e => .error (.usage e)
  | .ok .showHelp => .ok helpText
  | .ok .showVersion => .ok versionText
  | .ok (.run o) => execute read o

end FlatMachine.CommandLine
