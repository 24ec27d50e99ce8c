import FlatMachine.Memory

/-!
# A list read by request

The host offers bytes as a list that is read in three steps: write the index
wanted, trigger the look-up, read the result. An index past the end reads as
zero, so every walk along the list meets a zero byte.
-/

namespace FlatMachine

/-- A list of bytes with its look-up registers. -/
structure LookupList where
  items : Array UInt8 := #[]
  request : UInt32 := 0
  result : UInt8 := 0
  lookups : Nat := 0
deriving DecidableEq

namespace LookupList

/-- A list with the given items. -/
def ofList (items : List UInt8) : LookupList :=
  { items := items.toArray }

/-- A copy of the contents of a memory. -/
def ofMemory (m : Memory) : LookupList :=
  { items := m.bytes }

/-- The number of items. -/
def size (l : LookupList) : Nat :=
  l.items.size

/-- Whether there are no items. -/
def isEmpty (l : LookupList) : Bool :=
  l.items.isEmpty

/-- Writes the index wanted. -/
def setRequest (l : LookupList) (i : UInt32) : LookupList :=
  { l with request := i }

/-- Looks up the index wanted. -/
def trigger (l : LookupList) : LookupList :=
  { l with result := l.items.getD l.request.toNat 0, lookups := l.lookups + 1 }

/-- The byte at an index, by all three steps. -/
def lookup (l : LookupList) (i : UInt32) : UInt8 × LookupList :=
  let l' := (l.setRequest i).trigger
  (l'.result, l')

/-- The list and its registers on one line. -/
def inspect (l : LookupList) : String :=
  Text.record "ListMemory"
    [("items", Text.byteList l.items.toList), ("request", toString l.request.toNat),
     ("result", toString l.result.toNat), ("lookups", toString l.lookups)]

end LookupList

end FlatMachine
