import FlatMachine.Machine.State

/-!
# Memory dumps

A range of memory, sixteen bytes a line: the address, the bytes in hexadecimal,
and the same bytes as characters where they can be seen.
-/

namespace FlatMachine

namespace Dump

/-- The number of bytes on a line. -/
def lineSize : Nat := 16

/-- The character that shows a byte: itself when it is a visible ASCII character,
a point otherwise. -/
def glyph (b : UInt8) : Char :=
  if 0x21 ≤ b ∧ b ≤ 0x7E then Char.ofNat b.toNat else '.'

/-- A line that shows `bs`, found at address `a`. -/
def line (a : Nat) (bs : List UInt8) : String :=
  Text.hex8 a ++ "  " ++ String.ofList ((bs.flatMap Text.hexByte).rightpad (2 * lineSize) ' ') ++
    "  |" ++ String.ofList (bs.map glyph) ++ "|\n"

/-- The addresses at which the lines of a range start. -/
def lineStarts (start stop : Nat) : List Nat :=
  (List.range ((stop - start + (lineSize - 1)) / lineSize)).map (start + lineSize * ·)

/-- The lines of a range. -/
def lines (m : Memory) (start stop : Nat) : List String :=
  (lineStarts start stop).map fun a => line a (m.extract a (min stop (a + lineSize)))

end Dump

/-- The range from `start` up to `stop`, not included, with the registers above it. -/
def Machine.dump (m : Machine) (start stop : Nat) : Except Fault String :=
  if stop ≤ start then
    .error .emptyRange
  else if m.memory.size < stop then
    .error .rangeOutOfBounds
  else do
    let memEnd ← m.memEnd
    let stackStart ← m.stackStart
    let title := "--- Memory Dump ---\nmem_end: " ++ Text.hexNumber memEnd.toNat ++
      "  stack_start: " ++ Text.hexNumber stackStart.toNat ++ "\n"
    pure (title ++ String.join (Dump.lines m.memory start stop) ++ "-------------------\n")

end FlatMachine
