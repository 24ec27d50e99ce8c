import FlatMachine.Heap.Aligned
import FlatMachine.Ram

/-!
# A bus that calls back

Plain storage that, after every access, asks the allocator it belongs to for a
block of its own and notes what it sees. It is how the rule that the bus can be
held once only is observed from inside.
-/

namespace FlatMachine

/-- An access, with what a nested request saw right after it. -/
structure Sighting where
  access : Access
  cursor : Address
  block : Option Address
deriving DecidableEq, Repr

/-- Storage whose accesses make a nested request, and the sightings so far,
newest first. -/
structure CallingRam where
  ram : Ram := {}
  nested : Request
  sightings : List Sighting := []

namespace CallingRam

/-- The sightings in the order in which they happened. -/
def seen (m : CallingRam) : List Sighting :=
  m.sightings.reverse

/-- Forgets the sightings so far. -/
def clear (m : CallingRam) : CallingRam :=
  { m with sightings := [] }

/-- Makes the nested request, and notes it together with the access before it. -/
def callBack (access : Access) : Action (Allocator CallingRam) Unit := fun s =>
  let view : Allocator Ram := ⟨s.bus.ram, s.heap, s.inUse⟩
  match Allocator.alloc s.bus.nested view with
  | .ok block v =>
    let sighting := ⟨access, v.heap.cursor, block⟩
    .ok () ⟨{ s.bus with ram := v.bus, sightings := sighting :: s.bus.sightings }, v.heap, v.inUse⟩
  | .error e v => .error e ⟨{ s.bus with ram := v.bus }, v.heap, v.inUse⟩

instance : Bus (Allocator CallingRam) where
  load a := fun s =>
    let b := s.bus.ram.read a
    match callBack ⟨.load, a, b⟩ s with
    | .ok _ s' => .ok b s'
    | .error e s' => .error e s'
  store a b := fun s =>
    callBack ⟨.store, a, b⟩ { s with bus := { s.bus with ram := s.bus.ram.write a b } }

end CallingRam

end FlatMachine
