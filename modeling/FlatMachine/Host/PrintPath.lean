import FlatMachine.Host.LookupList
import FlatMachine.Host.PrintBuffer

/-!
# From the list to the buffer

A string in the list is copied to the print buffer byte by byte, up to its first
zero. An index past the end reads as zero, so the walk is over after one look-up
more than there are items.
-/

namespace FlatMachine

/-- A list to read from and a buffer to print to. -/
structure PrintPath where
  list : LookupList := {}
  buffer : PrintBuffer := {}
deriving DecidableEq

namespace PrintPath

/-- Copies bytes from index `i` up to the first zero, with `n` look-ups at most,
after `count` bytes have been copied already. -/
def printFrom : Nat → UInt32 → Nat → PrintPath → Nat × PrintPath
  | 0, _, count, p => (count, p)
  | n + 1, i, count, ⟨list, buffer⟩ =>
    match list.lookup i with
    | (b, list') =>
      if b = 0 then (count, ⟨list', buffer⟩)
      else printFrom n (i + 1) (count + 1) ⟨list', buffer.append b⟩

/-- Copies the string at an index, and counts its bytes. -/
def print (p : PrintPath) (i : UInt32) : Nat × PrintPath :=
  printFrom (p.list.size + 1) i 0 p

end PrintPath

end FlatMachine
