import FlatMachine.Machine.Dump
import FlatMachine.Session.Guest
import FlatMachine.Session.Host

/-!
# Machine steps

A machine with one guest on it and the host around it.
-/

namespace FlatMachine

/-- A step on a machine, by its guest or by the host. -/
inductive MachineStep where
  | guest (s : GuestStep)
  | list (s : ListStep)
  | view (v : MemoryView)
  | write (a : Address) (bs : List UInt8)
  | writeString (a : Address) (bs : List UInt8)
  | dump (start stop : Nat)
  | console
  | takeConsole
  | registers
  | inspect
  | listFromMemory
  | runScript (s : Script)

/-- A machine with its guest, and the host's list and print buffer. -/
structure MachineSession where
  guest : Guest Machine
  path : PrintPath := {}

namespace MachineSession

/-- The machine. -/
def machine (s : MachineSession) : Machine :=
  s.guest.bus

/-- A machine with a fresh guest and a fresh host. -/
def ofMachine (m : Machine) : MachineSession :=
  ⟨⟨m, {}⟩, {}⟩

/-- Runs an action on the guest. -/
def onGuest {α : Type} (x : Action (Guest Machine) α) : Action MachineSession α := fun s =>
  match s with
  | ⟨guest, path⟩ =>
    match x guest with
    | .ok a guest' => .ok a ⟨guest', path⟩
    | .error e guest' => .error e ⟨guest', path⟩

/-- Runs an action on the machine. -/
def onMachine {α : Type} (x : Action Machine α) : Action MachineSession α :=
  onGuest (Guest.onBus x)

/-- Runs an action on the host's list and print buffer. -/
def onPath {α : Type} (x : Action PrintPath α) : Action MachineSession α := fun s =>
  match s with
  | ⟨guest, path⟩ =>
    match x path with
    | .ok a path' => .ok a ⟨guest, path'⟩
    | .error e path' => .error e ⟨guest, path'⟩

end MachineSession

open MachineSession in
/-- Takes a machine step. -/
def MachineStep.run : MachineStep → Action MachineSession Reply
  | guest s => onGuest s.run
  | list s => onPath s.run
  | view v => Action.reading fun s => v.answer s.machine.memory
  | write a bs => do
    onMachine (Machine.write a bs)
    pure .done
  | writeString a bs => do
    onMachine (Machine.writeString a bs)
    pure .done
  | dump start stop => Action.reading fun s => .text <$> s.machine.dump start stop
  | console => Action.reading fun s =>
    .ok (.console s.machine.console.toList s.machine.consoleText)
  | takeConsole => .bytes <$> onMachine Machine.takeConsole
  | registers => Action.reading fun s => do
    let memEnd ← s.machine.memEnd
    let stackStart ← s.machine.stackStart
    pure (.registers memEnd stackStart s.machine.entryPoint)
  | inspect => Action.reading fun s => .ok (.text s.machine.inspect)
  | listFromMemory => fun s =>
    .ok .done { s with path := { s.path with list := .ofMemory s.machine.memory } }
  | runScript s => .report <$> onMachine s.run

end FlatMachine
