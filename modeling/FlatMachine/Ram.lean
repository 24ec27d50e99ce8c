import FlatMachine.Bus
import Std.Data.ExtTreeMap

/-!
# Plain storage over the whole address space

Every address holds a byte, zero until something else is stored there. There are
no registers, nothing halts, and no access faults. A traced variant keeps a
record of the accesses, newest first.
-/

namespace FlatMachine

/-- A byte for each of the 2^32 addresses. -/
structure Ram where
  cells : Std.ExtTreeMap Address UInt8 := ∅

namespace Ram

/-- The byte at an address. -/
def read (m : Ram) (a : Address) : UInt8 :=
  m.cells.getD a 0

/-- The storage after a byte is stored. -/
def write (m : Ram) (a : Address) (b : UInt8) : Ram :=
  ⟨m.cells.insert a b⟩

/-- The storage after bytes are stored from an address up. -/
def writeAll (m : Ram) (a : Address) : List UInt8 → Ram
  | [] => m
  | b :: bs => (m.write a b).writeAll (a + 1) bs

/-- The addresses ever stored to, ascending, with their bytes. -/
def toList (m : Ram) : List (Address × UInt8) :=
  m.cells.toList

instance : Bus Ram where
  load a := fun m => .ok (m.read a) m
  store a b := fun m => .ok () (m.write a b)

end Ram

/-- The two kinds of access. -/
inductive AccessKind where
  | load
  | store
deriving DecidableEq, Repr

/-- One access to a byte. -/
structure Access where
  kind : AccessKind
  address : Address
  byte : UInt8
deriving DecidableEq, Repr

/-- Plain storage with a record of the accesses, newest first. -/
structure TracedRam where
  ram : Ram := {}
  trace : List Access := []

namespace TracedRam

/-- Adds an access to the record. -/
def record (m : TracedRam) (a : Access) : TracedRam :=
  { m with trace := a :: m.trace }

/-- The accesses in the order in which they happened. -/
def accesses (m : TracedRam) : List Access :=
  m.trace.reverse

/-- Forgets the accesses so far. -/
def clear (m : TracedRam) : TracedRam :=
  { m with trace := [] }

instance : Bus TracedRam where
  load a := fun m =>
    let b := m.ram.read a
    .ok b (m.record ⟨.load, a, b⟩)
  store a b := fun m =>
    .ok () (TracedRam.record { m with ram := m.ram.write a b } ⟨.store, a, b⟩)

end TracedRam

end FlatMachine
