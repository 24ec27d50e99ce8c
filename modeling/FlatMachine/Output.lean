import FlatMachine.Bus
import FlatMachine.Device
import FlatMachine.Text.Utf8

/-!
# Guest output

A guest writes one character at a time to the sink. Strings end at their first
zero byte and get a newline. A string in memory is printed while it is read, so a
walk that finds no zero byte goes on; once it has visited every address it never
will, and the walk is reported as endless.
-/

namespace FlatMachine

/-- What a guest gets instead of an answer once it has halted. -/
structure Halted where
deriving DecidableEq, Repr

/-- What the user reads. -/
def Halted.message (_ : Halted) : String :=
  "machine halted"

/-- The byte that ends a line. -/
def newline : UInt8 := 10

/-- The complaint of a guest that has run out of memory. -/
def outOfMemory : List UInt8 :=
  Text.encode "malloc error: out of memory"

variable {σ : Type} [Bus σ]

/-- Writes a character. -/
def writeChar (c : UInt8) : Action σ Unit :=
  Bus.store Register.sink.address c

/-- Writes characters one after another. -/
def writeChars : List UInt8 → Action σ Unit
  | [] => pure ()
  | c :: cs => do
    writeChar c
    writeChars cs

/-- Writes the part of a byte string before its first zero, and a newline. -/
def printLine (s : List UInt8) : Action σ Unit := do
  writeChars (s.takeWhile (· ≠ 0))
  writeChar newline

/-- Writes the bytes from an address up to the first zero, visiting `n` bytes at
most. -/
def writeStringFrom : Nat → Address → Action σ Unit
  | 0, _ => throw .endless
  | n + 1, a => do
    let c ← Bus.load a
    if c = 0 then
      pure ()
    else
      writeChar c
      writeStringFrom n (a + 1)

/-- Writes the string at an address, and a newline. -/
def printLineAt (a : Address) : Action σ Unit := do
  writeStringFrom Address.space a
  writeChar newline

/-- Raises the halt flag. -/
def halt : Action σ Halted := do
  Bus.store Register.haltFlag.address 1
  pure {}

/-- Complains that memory has run out, and halts. -/
def haltOutOfMemory : Action σ Halted := do
  printLine outOfMemory
  halt

end FlatMachine
