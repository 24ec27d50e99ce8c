import FlatMachine.Address
import FlatMachine.Text.Hex
import FlatMachine.Text.Record

/-!
# The heap cursor

The heap is a cursor that only moves up, and null before its first use. It grants
a block as long as the cursor is below the end of memory. A block may stick out
of memory, because only its start is checked, and the cursor then stops at the
last address. Nothing is ever given back.
-/

namespace FlatMachine

/-- A heap: where its next block starts, or null before its first use. -/
structure Heap where
  cursor : Address := Address.null
deriving DecidableEq, Repr

namespace Heap

/-- Whether the heap has been used. -/
def isInitialized (h : Heap) : Bool :=
  h.cursor != Address.null

/-- A block of `size` bytes, if the cursor is below `memEnd`, and the heap after it. -/
def grant (h : Heap) (memEnd : Address) (size : UInt32) : Option Address × Heap :=
  if h.cursor < memEnd then (some h.cursor, ⟨h.cursor.saturatingAdd size⟩) else (none, h)

/-- The cursor on one line. -/
def inspect (h : Heap) : String :=
  Text.record "BumpAllocator" [("cursor", Text.hexNumber h.cursor.toNat)]

end Heap

end FlatMachine
