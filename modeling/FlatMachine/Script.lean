import FlatMachine.Heap.Guest
import FlatMachine.Host.PrintPath
import FlatMachine.Machine.State

/-!
# Scripts

A script puts messages on the heap of a machine and prints each of them twice:
the guest prints it on the console, and the host copies it from a snapshot of
memory to a print buffer. Then it takes blocks of the given sizes. The first
request that the heap denies halts the guest and ends the script.
-/

namespace FlatMachine

/-- What a guest is to do. -/
structure Script where
  messages : List String := []
  allocations : List UInt32 := []

/-- What came of a script. -/
structure Report where
  allocations : List Address
  halted : Bool
  cursor : Address
  printBuffer : PrintBuffer
deriving DecidableEq

/-- The report on one line. -/
def Report.inspect (r : Report) : String :=
  Text.record "Report"
    [("allocations", Text.bracketed (r.allocations.map fun a => Text.hexNumber a.toNat)),
     ("halted", Text.ofBool r.halted), ("cursor", Text.hexNumber r.cursor.toNat),
     ("print_buffer", r.printBuffer.inspect)]

namespace Script

/-- A script under way: the guest, the blocks it has got, and the print buffer. -/
structure Progress where
  guest : Guest Machine
  blocks : Array Address := #[]
  buffer : PrintBuffer := {}

namespace Progress

/-- Runs an action on the guest. -/
def onGuest {α : Type} (x : Action (Guest Machine) α) : Action Progress α := fun p =>
  match p with
  | ⟨guest, blocks, buffer⟩ =>
    match x guest with
    | .ok a guest' => .ok a ⟨guest', blocks, buffer⟩
    | .error e guest' => .error e ⟨guest', blocks, buffer⟩

/-- Notes a block. -/
def note (a : Address) : Action Progress Unit := fun p =>
  match p with
  | ⟨guest, blocks, buffer⟩ => .ok () ⟨guest, blocks.push a, buffer⟩

/-- Copies the string at an address from a snapshot of memory to the buffer. -/
def copyString (a : Address) : Action Progress Unit := fun p =>
  match p with
  | ⟨guest, blocks, buffer⟩ =>
    let printed := PrintPath.print ⟨.ofMemory guest.bus.memory, buffer⟩ a
    .ok () ⟨guest, blocks, printed.2.buffer⟩

/-- Stores each message and prints it both ways. -/
def sendMessages : List String → Action Progress (Except Halted Unit)
  | [] => pure (.ok ())
  | s :: rest => do
    match ← onGuest (Guest.storeString (Text.encode s)) with
    | .error h => pure (.error h)
    | .ok a =>
      note a
      onGuest (printLineAt a)
      copyString a
      sendMessages rest

/-- Takes a block of each size. -/
def takeBlocks : List UInt32 → Action Progress (Except Halted Unit)
  | [] => pure (.ok ())
  | size :: rest => do
    match ← onGuest (Guest.allocate size) with
    | .error h => pure (.error h)
    | .ok a =>
      note a
      takeBlocks rest

end Progress

/-- The whole script. -/
def steps (s : Script) : Action Progress (Except Halted Unit) := do
  match ← Progress.sendMessages s.messages with
  | .error h => pure (.error h)
  | .ok () => Progress.takeBlocks s.allocations

/-- Runs a script on a machine, with a heap and a print buffer of its own. -/
def run (s : Script) : Action Machine Report := fun m =>
  match s.steps ⟨⟨m, {}⟩, #[], {}⟩ with
  | .error e p => .error e p.guest.bus
  | .ok outcome p =>
    let halted := match outcome with
      | .ok () => false
      | .error _ => true
    .ok ⟨p.blocks.toList, halted, p.guest.heap.cursor, p.buffer⟩ p.guest.bus

end Script

end FlatMachine
