import FlatMachine.Heap.Cursor
import FlatMachine.Output

/-!
# A guest with a heap

A guest program sees a bus and keeps one heap. The heap starts one word past the
start of the stack, and the registers are read anew on every call: the start of
the stack when the heap is first used, the end of memory each time.

A guest is itself a bus, so whatever runs on a bus also runs on a guest and
leaves its heap alone.
-/

namespace FlatMachine

/-- A guest program: its bus and its heap. -/
structure Guest (σ : Type) where
  bus : σ
  heap : Heap := {}
deriving DecidableEq

namespace Guest

variable {σ α : Type}

/-- Runs an action on the bus. -/
def onBus (x : Action σ α) : Action (Guest σ) α := fun g =>
  match g with
  | ⟨bus, heap⟩ =>
    match x bus with
    | .ok a bus' => .ok a ⟨bus', heap⟩
    | .error e bus' => .error e ⟨bus', heap⟩

instance [Bus σ] : Bus (Guest σ) where
  load a := onBus (Bus.load a)
  store a b := onBus (Bus.store a b)

/-- The heap as it is. -/
def getHeap : Action (Guest σ) Heap := fun g =>
  .ok g.heap g

/-- Replaces the heap. -/
def setHeap (h : Heap) : Action (Guest σ) Unit := fun g =>
  .ok () { g with heap := h }

/-- Takes a block off the heap, if its cursor is below `memEnd`. -/
def grant (memEnd : Address) (size : UInt32) : Action (Guest σ) (Option Address) := fun g =>
  let granted := g.heap.grant memEnd size
  .ok granted.1 { g with heap := granted.2 }

variable [Bus σ]

/-- Where a heap starts. -/
def heapStart : Action (Guest σ) Address := do
  let stack : Address ← Bus.loadWord Register.stackStart.address
  pure (stack.saturatingAdd (UInt32.ofNat Word.size))

/-- Where the next block would start. -/
def position : Action (Guest σ) Address := do
  let h ← getHeap
  if h.isInitialized then pure h.cursor else heapStart

/-- How many bytes are left below the end of memory. -/
def remaining : Action (Guest σ) UInt32 := do
  let cursor ← position
  let memEnd : Address ← Bus.loadWord Register.memEnd.address
  pure (memEnd.distanceFrom cursor)

/-- A block of `size` bytes, if there is one. -/
def reserve (size : UInt32) : Action (Guest σ) (Option Address) := do
  let cursor ← position
  setHeap ⟨cursor⟩
  let memEnd ← Bus.loadWord Register.memEnd.address
  grant memEnd size

/-- A block of `size` bytes, or a halt with a complaint. -/
def allocate (size : UInt32) : Action (Guest σ) (Except Halted Address) := do
  match ← reserve size with
  | some a => pure (.ok a)
  | none => .error <$> haltOutOfMemory

/-- Gives a block back, which changes nothing. -/
def free (_ : Address) : Action (Guest σ) Unit :=
  pure ()

/-- The bytes a string takes with its closing zero, at most the last address. -/
def stringSize (s : List UInt8) : UInt32 :=
  Address.saturatingAdd (UInt32.ofNat (min s.length (Address.space - 1))) 1

/-- Puts a string with a closing zero on the heap, or halts with a complaint. A
string that does not fit leaves the heap as it is. -/
def storeString (s : List UInt8) : Action (Guest σ) (Except Halted Address) := do
  let size := stringSize s
  if (← remaining) < size then
    .error <$> haltOutOfMemory
  else
    match ← allocate size with
    | .ok a =>
      Bus.storeBytes a s
      Bus.store (a + UInt32.ofNat s.length) 0
      pure (.ok a)
    | .error h => pure (.error h)

end Guest

end FlatMachine
