import FlatMachine.Action
import FlatMachine.Text.Record
import FlatMachine.Word

/-!
# Flat memory

A fixed number of bytes from address zero up. An access outside it is a fault,
found before anything is written. Words are accessed whole here, so a word that
sticks out of memory faults as a word and leaves every byte alone.
-/

namespace FlatMachine

/-- A block of bytes from address zero up. -/
structure Memory where
  bytes : Array UInt8
deriving DecidableEq

namespace Memory

/-- A memory of `n` zero bytes. -/
def zeros (n : Nat) : Memory :=
  ⟨Array.replicate n 0⟩

/-- The number of bytes. -/
def size (m : Memory) : Nat :=
  m.bytes.size

/-- The contents as a list. -/
def toList (m : Memory) : List UInt8 :=
  m.bytes.toList

/-- The byte at an address. -/
def load (m : Memory) (a : Address) : Except Fault UInt8 :=
  match m.bytes[a.toNat]? with
  | some b => .ok b
  | none => .error (.loadByte a)

/-- The bytes from `start` up to `stop`, not included. -/
def extract (m : Memory) (start stop : Nat) : List UInt8 :=
  (m.bytes.extract start stop).toList

/-- The word at an address. -/
def loadWord (m : Memory) (a : Address) : Except Fault UInt32 :=
  if a.toNat + Word.size ≤ m.size then
    .ok (Word.ofBytes (m.extract a.toNat (a.toNat + Word.size)))
  else
    .error (.loadWord a)

/-- The bytes of a range that lies in memory. -/
def slice? (m : Memory) (start stop : Nat) : Option (List UInt8) :=
  if start ≤ stop ∧ stop ≤ m.size then some (m.extract start stop) else none

/-- The position of the first zero byte at or after `i`, looking at `n` bytes at
most. -/
def stringEnd (m : Memory) : Nat → Nat → Nat
  | 0, i => i
  | n + 1, i =>
    match m.bytes[i]? with
    | none => i
    | some b => if b = 0 then i else m.stringEnd n (i + 1)

/-- The bytes from an address up to the first zero, or to the end of memory. -/
def string (m : Memory) (a : Address) : List UInt8 :=
  m.extract a.toNat (m.stringEnd (m.size - a.toNat) a.toNat)

/-- Replaces the bytes from position `i` up, dropping those past the end. -/
def splice (bytes : Array UInt8) (i : Nat) : List UInt8 → Array UInt8
  | [] => bytes
  | b :: bs => splice (bytes.setIfInBounds i b) (i + 1) bs

/-- The memory with the bytes from an address up replaced, as far as it reaches. -/
def overwrite (m : Memory) (a : Address) (bs : List UInt8) : Memory :=
  ⟨splice m.bytes a.toNat bs⟩

/-- Stores a byte. -/
def store (a : Address) (b : UInt8) : Action Memory Unit := fun m =>
  if a.toNat < m.bytes.size then
    .ok () (m.overwrite a [b])
  else
    .error (.storeByte a) m

/-- Stores a word. -/
def storeWord (a : Address) (w : UInt32) : Action Memory Unit := fun m =>
  if a.toNat + Word.size ≤ m.bytes.size then
    .ok () (m.overwrite a (Word.toBytes w))
  else
    .error (.storeWord a) m

/-- Writes bytes from an address up, all of them or none. -/
def write (a : Address) (bs : List UInt8) : Action Memory Unit := fun m =>
  let stop := a.toNat + bs.length
  if stop ≤ m.bytes.size then
    .ok () (m.overwrite a bs)
  else
    .error (.write a.toNat stop m.bytes.size) m

/-- Writes bytes from an address up, and a zero after them. -/
def writeString (a : Address) (bs : List UInt8) : Action Memory Unit := do
  write a bs
  store (a + UInt32.ofNat bs.length) 0

/-- The size on one line. -/
def inspect (m : Memory) : String :=
  Text.record "FlatMemory" [("size", toString m.size)]

end Memory

end FlatMachine
