import FlatMachine.CommandLine.Token
import FlatMachine.Text.Number
import FlatMachine.Text.Terminal

/-!
# Reading the command line

Arguments are read from the left, and the first complaint is the answer. The
value of an option may be an argument of its own. Such a value is judged only
when the argument after it has been read, so an argument that can mean nothing
where it stands is reported even if the value before it is bad.
-/

namespace FlatMachine.CommandLine

/-- Why a command line is refused. -/
inductive UsageError where
  | invalidNumber (n : Name) (value : String) (e : Text.NumberError)
  | unexpected (argument : String)
  | missingValue (n : Name)
  | repeated (n : Name)
  | unneededValue (n : Name) (value : String)
deriving DecidableEq, Repr

namespace UsageError

open Text.Terminal (highlight)

/-- The complaint itself, for a terminal. Text from the user is highlighted, except
where it is quoted once more as the reason. -/
def complaint : UsageError → String
  | invalidNumber n value e =>
    "invalid value '" ++ highlight value ++ "' for '" ++ highlight n.label ++ "': " ++
      e.describe value
  | unexpected argument => "unexpected argument '" ++ highlight argument ++ "' found"
  | missingValue n =>
    "a value is required for '" ++ highlight n.label ++ "' but none was supplied"
  | repeated n =>
    "the argument '" ++ highlight n.label ++ "' cannot be used multiple times"
  | unneededValue n value =>
    "unexpected value '" ++ highlight value ++ "' for '" ++ highlight n.label ++
      "' found; no more were expected"

/-- The complaint with a hint where to find help, for a terminal. -/
def report (e : UsageError) : String :=
  highlight "error:" ++ " " ++ e.complaint ++
    "\n\nFor more information, try '" ++ highlight "--help" ++ "'.\n"

/-- The first line that the user reads away from a terminal. -/
def message (e : UsageError) : String :=
  Text.firstLine (Text.Terminal.plain e.report)

end UsageError

/-- What a command line asks for. -/
structure Options where
  image : Option String := none
  memorySize : Option UInt32 := none
  stackSize : Option UInt32 := none
  messages : List String := []
  allocations : List UInt32 := []
  dump : Bool := false
  verbose : Bool := false
deriving DecidableEq, Repr

/-- What is to be done. -/
inductive Task where
  | run (o : Options)
  | showHelp
  | showVersion
deriving DecidableEq, Repr

/-- Reads the number given to an option. -/
def numberFor (n : Name) (value : String) : Except UsageError UInt32 :=
  match Text.readNumber value with
  | .ok w => .ok w
  | .error e => .error (.invalidNumber n value e)

namespace Options

/-- Gives a value to an option. Messages and sizes of blocks add up, and the other
options are set once. An image without a name counts as none. -/
def give (o : Options) (n : Name) (value : String) : Except UsageError Options :=
  match n with
  | .image =>
    if o.image.isSome then .error (.repeated n)
    else if value.isEmpty then .error (.missingValue n)
    else .ok { o with image := some value }
  | .memorySize =>
    if o.memorySize.isSome then .error (.repeated n)
    else do pure { o with memorySize := some (← numberFor n value) }
  | .stackSize =>
    if o.stackSize.isSome then .error (.repeated n)
    else do pure { o with stackSize := some (← numberFor n value) }
  | .message => .ok { o with messages := o.messages ++ [value] }
  | .alloc => do pure { o with allocations := o.allocations ++ [← numberFor n value] }
  | _ => .ok o

/-- Turns on an option that takes no value. -/
def turnOn (o : Options) (n : Name) : Except UsageError Options :=
  match n with
  | .dump => if o.dump then .error (.repeated n) else .ok { o with dump := true }
  | .verbose => if o.verbose then .error (.repeated n) else .ok { o with verbose := true }
  | _ => .ok o

end Options

/-- The complaint about a first argument that can mean nothing where an option is
expected, if it is such a one. -/
def stray? : List String → Option UsageError
  | [] => none
  | argument :: rest =>
    match Token.ofArgument argument with
    | .plain => some (.unexpected argument)
    | .unknown shown => some (.unexpected shown)
    | .endOfOptions => rest.head?.map .unexpected
    | .option n (some value) => if n.takesValue then none else some (.unneededValue n value)
    | .option _ none => none

/-- Reads arguments where an option is expected, after those in `o`. -/
def parseFrom (o : Options) : List String → Except UsageError Task
  | [] => .ok (.run o)
  | argument :: rest =>
    match stray? (argument :: rest) with
    | some e => .error e
    | none =>
      match Token.ofArgument argument with
      | .option .help _ => .ok .showHelp
      | .option .version _ => .ok .showVersion
      | .option n (some value) => do parseFrom (← o.give n value) rest
      | .option n none =>
        if n.takesValue then
          match rest with
          | [] => .error (.missingValue n)
          | value :: rest' =>
            match Token.ofArgument value with
            | .plain =>
              match stray? rest' with
              | some e => .error e
              | none => do parseFrom (← o.give n value) rest'
            | _ => .error ((stray? rest).getD (.missingValue n))
        else do
          parseFrom (← o.turnOn n) rest
      | _ => .ok (.run o)

/-- Reads a command line. -/
def parse (arguments : List String) : Except UsageError Task :=
  parseFrom {} arguments

end FlatMachine.CommandLine
