/-!
# Text for a terminal

A complaint is written for a terminal, with its important parts highlighted by
control sequences. Away from a terminal only what one could read is kept: the
sequences go, and so do control characters other than blanks. Text from the user
stands inside a complaint and may bring sequences of its own, even unfinished
ones, which then take in what follows them.

A sequence starts with an escape character. A blank control character in the
middle of a short sequence is shown all the same, and the text after it too, until
a character that is not shown; only then does the sequence go on.
-/

namespace FlatMachine.Text

namespace Terminal

/-- Where a sequence of control characters stands. -/
inductive Sequence where
  /-- There is no sequence. -/
  | none
  /-- Right after an escape character. -/
  | escape
  /-- A short sequence that waits for its last character. -/
  | intermediate
  /-- A control sequence, with its parameters. -/
  | control
  /-- A command to the terminal, up to a bell. -/
  | command
  /-- The start of a device string. -/
  | deviceEntry
  /-- The parameters of a device string. -/
  | deviceParameter
  /-- A device string that waits for its last introductory character. -/
  | deviceIntermediate
  /-- A string for a device, up to a string terminator. -/
  | string
deriving DecidableEq, Repr

/-- Whether a character is in an inclusive range of codes. -/
def within (low high : Nat) (c : Char) : Bool :=
  low ≤ c.toNat && c.toNat ≤ high

/-- A control character that is a blank: tab, line feed, form feed or return. -/
def isBlankControl (c : Char) : Bool :=
  c == '\t' || c == '\n' || c == '\x0c' || c == '\r'

/-- Whether a character outside ASCII needs the byte that terminates strings. -/
def holdsTerminator (c : Char) : Bool :=
  (String.utf8EncodeChar c).contains 0x9C

/-- A character that is shown where there is no sequence. -/
def isShown (c : Char) : Bool :=
  isBlankControl c || within 0x20 0x7E c || 0x80 ≤ c.toNat

namespace Sequence

/-- The sequence that the character after an escape begins. -/
def afterEscape (c : Char) : Sequence :=
  match c with
  | '[' => control
  | ']' => command
  | 'P' => deviceEntry
  | 'X' => string
  | '^' => string
  | '_' => string
  | _ =>
    if within 0x20 0x2F c then intermediate
    else if within 0x30 0x7E c then none
    else escape

/-- The sequence after one more character. An escape starts anew, and a cancel or
a substitute character gives up, whatever the sequence. -/
def next (s : Sequence) (c : Char) : Sequence :=
  if c = '\x18' ∨ c = '\x1a' then none
  else if c = '\x1b' then escape
  else
    match s with
    | none => none
    | escape => afterEscape c
    | intermediate => if within 0x30 0x7E c then none else intermediate
    | control => if within 0x40 0x7E c then none else control
    | command => if c = '\x07' then none else command
    | deviceEntry =>
      if within 0x20 0x2F c then deviceIntermediate
      else if within 0x30 0x3F c then deviceParameter
      else if within 0x40 0x7E c then string
      else deviceEntry
    | deviceParameter =>
      if within 0x20 0x2F c then deviceIntermediate
      else if within 0x3C 0x7E c then string
      else deviceParameter
    | deviceIntermediate => if within 0x30 0x7E c then string else deviceIntermediate
    | string => if holdsTerminator c then none else string

/-- Whether a character is shown in spite of the sequence it stands in. -/
def shows (s : Sequence) (c : Char) : Bool :=
  match s with
  | none => isShown c
  | escape | intermediate | control => isBlankControl c
  | _ => false

end Sequence

/-- What has been read so far: the sequence begun, and whether text is being shown
in the middle of it. -/
structure Reader where
  sequence : Sequence := .none
  showing : Bool := false
deriving DecidableEq, Repr

/-- Whether a character is shown, and the reader after it. -/
def Reader.read (r : Reader) (c : Char) : Bool × Reader :=
  if r.showing && isShown c then
    (true, ⟨if 0x80 ≤ c.toNat then .none else r.sequence, true⟩)
  else
    let shown := r.sequence.shows c
    (shown, ⟨r.sequence.next c, shown⟩)

/-- The characters that are shown. -/
def Reader.plain : Reader → List Char → List Char
  | _, [] => []
  | r, c :: cs =>
    match r.read c with
    | (true, r') => c :: r'.plain cs
    | (false, r') => r'.plain cs

/-- What can be read of a text for a terminal. -/
def plain (s : String) : String :=
  String.ofList (Reader.plain {} s.toList)

/-- A text in bold. -/
def highlight (s : String) : String :=
  "\x1b[1m" ++ s ++ "\x1b[0m"

end Terminal

/-- The first line of a text, without the characters that end it. -/
def firstLine (s : String) : String :=
  let line := s.toList.takeWhile (· ≠ '\n')
  let ended := line.length < s.toList.length
  String.ofList (if ended ∧ line.getLast? = some '\r' then line.dropLast else line)

end FlatMachine.Text
