import FlatMachine.Bus
import FlatMachine.Machine.Layout
import FlatMachine.Memory
import FlatMachine.Text.Utf8

/-!
# The machine

A machine is flat memory with devices. A byte stored at the sink lands in memory
and on the console, and a byte other than zero stored at the halt flag stops the
machine. From then on stores by the guest are counted and dropped, while loads
still work. The host writes to memory directly, past the devices, and can do so
at any time.
-/

namespace FlatMachine

/-- Whether a machine still takes stores. -/
inductive Status where
  | running
  | halted
deriving DecidableEq, Repr

/-- The name of a status. -/
def Status.name : Status → String
  | running => "Running"
  | halted => "Halted"

/-- A machine. -/
structure Machine where
  memory : Memory
  console : Array UInt8 := #[]
  status : Status := .running
  entryPoint : Address := 0
  droppedStores : Nat := 0
deriving DecidableEq

namespace Machine

/-- Writes the registers that say where memory ends and where the stack starts. -/
def setRegisters (l : Layout) : Action Memory Unit := do
  Memory.storeWord Register.memEnd.address l.memorySize
  Memory.storeWord Register.stackStart.address l.stackStart

/-- The machine with the given layout. A layout that is refused is an answer, and
only a register outside memory would be a fault. -/
def ofLayout (l : Layout) : Except Fault (Except SetupError Machine) :=
  match l.validate with
  | .error e => .ok (.error e)
  | .ok () =>
    match setRegisters l (.zeros l.memorySize.toNat) with
    | .ok () memory => .ok (.ok { memory })
    | .error e _ => .error e

/-- Whether the machine has halted. -/
def isHalted (m : Machine) : Bool :=
  m.status == .halted

/-- The end of memory, as its register has it. -/
def memEnd (m : Machine) : Except Fault Address :=
  m.memory.loadWord Register.memEnd.address

/-- The start of the stack, as its register has it. -/
def stackStart (m : Machine) : Except Fault Address :=
  m.memory.loadWord Register.stackStart.address

/-- The console as text. -/
def consoleText (m : Machine) : String :=
  Text.decode m.console.toList

/-- Runs an action on memory, past the devices. -/
def onMemory {α : Type} (x : Action Memory α) : Action Machine α := fun m =>
  match m with
  | ⟨memory, console, status, entryPoint, dropped⟩ =>
    match x memory with
    | .ok a memory' => .ok a ⟨memory', console, status, entryPoint, dropped⟩
    | .error e memory' => .error e ⟨memory', console, status, entryPoint, dropped⟩

/-- What the devices do about a byte that has reached memory. -/
def react (a : Address) (b : UInt8) : Action Machine Unit := fun m =>
  match m with
  | ⟨memory, console, status, entryPoint, dropped⟩ =>
    if a = Register.sink.address then
      .ok () ⟨memory, console.push b, status, entryPoint, dropped⟩
    else if a = Register.haltFlag.address ∧ b ≠ 0 then
      .ok () ⟨memory, console, .halted, entryPoint, dropped⟩
    else
      .ok () ⟨memory, console, status, entryPoint, dropped⟩

/-- Counts a store that a halted machine does not take. -/
def dropStore : Action Machine Unit := fun m =>
  .ok () { m with droppedStores := m.droppedStores + 1 }

/-- The status as it is. -/
def getStatus : Action Machine Status := fun m =>
  .ok m.status m

/-- Loads a byte. -/
def load (a : Address) : Action Machine UInt8 :=
  Action.reading fun m => m.memory.load a

/-- Stores a byte, unless the machine has halted. -/
def store (a : Address) (b : UInt8) : Action Machine Unit := do
  match ← getStatus with
  | .halted => dropStore
  | .running =>
    onMemory (Memory.store a b)
    react a b

instance : Bus Machine where
  load := load
  store := store

/-- Hands the console back and clears it. -/
def takeConsole : Action Machine (List UInt8) := fun m =>
  .ok m.console.toList { m with console := #[] }

/-- Writes bytes to memory. -/
def write (a : Address) (bs : List UInt8) : Action Machine Unit :=
  onMemory (Memory.write a bs)

/-- Writes bytes and a closing zero to memory. -/
def writeString (a : Address) (bs : List UInt8) : Action Machine Unit :=
  onMemory (Memory.writeString a bs)

/-- The machine on one line. -/
def inspect (m : Machine) : String :=
  Text.record "Machine"
    [("memory", m.memory.inspect), ("console", Text.byteList m.console.toList),
     ("status", m.status.name), ("entry_point", toString m.entryPoint.toNat),
     ("dropped_stores", toString m.droppedStores)]

end Machine

end FlatMachine
