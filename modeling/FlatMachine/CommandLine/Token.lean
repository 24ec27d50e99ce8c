/-!
# The options of the command line

What a single argument says, read on its own: an option with or without a value
attached, the mark that ends the options, or plain text. Long options are matched
in full. A value is attached to a long option by an equals sign, and to a short
one by following it, with or without an equals sign.
-/

namespace FlatMachine.CommandLine

/-- The options. -/
inductive Name where
  | image
  | memorySize
  | stackSize
  | message
  | alloc
  | dump
  | verbose
  | help
  | version
deriving DecidableEq, Repr

namespace Name

/-- Every option, in the order in which the help shows them. -/
def all : List Name :=
  [image, memorySize, stackSize, message, alloc, dump, verbose, help, version]

/-- The long spelling, without its dashes. -/
def long : Name → String
  | image => "image"
  | memorySize => "memory-size"
  | stackSize => "stack-size"
  | message => "message"
  | alloc => "alloc"
  | dump => "dump"
  | verbose => "verbose"
  | help => "help"
  | version => "version"

/-- The letter of the short spelling, for options that have one. -/
def short? : Name → Option Char
  | message => some 'm'
  | alloc => some 'a'
  | help => some 'h'
  | version => some 'V'
  | _ => none

/-- What the value of an option is called, for options that take one. -/
def valueName? : Name → Option String
  | image => some "IMAGE"
  | memorySize => some "MEMORY_SIZE"
  | stackSize => some "STACK_SIZE"
  | message => some "MESSAGES"
  | alloc => some "ALLOCATIONS"
  | _ => none

/-- Whether an option takes a value. -/
def takesValue (n : Name) : Bool :=
  n.valueName?.isSome

/-- How complaints refer to an option. -/
def label (n : Name) : String :=
  match n.valueName? with
  | some v => "--" ++ n.long ++ " <" ++ v ++ ">"
  | none => "--" ++ n.long

/-- What the help says about an option. The switch for more detail goes without. -/
def about : Name → String
  | image => "Boot from an SBIN image instead of a blank machine"
  | memorySize => "Total memory in bytes (blank machine only)"
  | stackSize => "Stack size in bytes (blank machine only)"
  | message => "Message to copy onto the heap and print. May be repeated"
  | alloc => "Heap allocation size in bytes. May be repeated"
  | dump => "Hex dump the heap after the session"
  | verbose => ""
  | help => "Print help"
  | version => "Print version"

/-- The option with the given long spelling. -/
def ofLong? (s : List Char) : Option Name :=
  all.find? fun n => n.long.toList == s

/-- The option with the given short spelling. -/
def ofShort? (c : Char) : Option Name :=
  all.find? fun n => n.short? == some c

end Name

/-- What an argument says, read on its own. -/
inductive Token where
  /-- The mark that ends the options. -/
  | endOfOptions
  | option (n : Name) (attached : Option String)
  /-- An option nobody knows, as complaints show it. -/
  | unknown (shown : String)
  | plain
deriving DecidableEq, Repr

namespace Token

/-- Reads what follows two dashes. -/
def ofLong (cs : List Char) : Token :=
  let name := cs.takeWhile (· ≠ '=')
  let attached := match cs.dropWhile (· ≠ '=') with
    | [] => none
    | _ :: value => some (String.ofList value)
  match Name.ofLong? name with
  | some n => option n attached
  | none => unknown ("--" ++ String.ofList name)

/-- Reads what follows a single dash. -/
def ofShort (c : Char) (cs : List Char) : Token :=
  match Name.ofShort? c with
  | none => unknown (String.ofList ['-', c])
  | some n =>
    if n.takesValue then
      match cs with
      | [] => option n none
      | '=' :: value => option n (some (String.ofList value))
      | value => option n (some (String.ofList value))
    else
      option n none

/-- Reads an argument. -/
def ofArgument (s : String) : Token :=
  match s.toList with
  | ['-', '-'] => endOfOptions
  | '-' :: '-' :: cs => ofLong cs
  | '-' :: c :: cs => ofShort c cs
  | _ => plain

end Token

end FlatMachine.CommandLine
