import FlatMachine.Session.Reply

/-!
# Host steps

What the host can do with its list and its print buffer, and with a memory.
-/

namespace FlatMachine

/-- A step on the list and the print buffer. -/
inductive ListStep where
  | replace (items : List UInt8)
  | setRequest (i : UInt32)
  | trigger
  | readResult
  | lookup (i : UInt32)
  | extent
  | inspectList
  | print (i : UInt32)
  | append (b : UInt8)
  | flush
  | buffer
  | inspectBuffer
deriving DecidableEq, Repr

namespace ListStep

/-- What a list step does. -/
def apply (p : PrintPath) : ListStep → Reply × PrintPath
  | replace items => (.done, { p with list := .ofList items })
  | setRequest i => (.done, { p with list := p.list.setRequest i })
  | trigger => (.done, { p with list := p.list.trigger })
  | readResult => (.number p.list.result.toNat, p)
  | lookup i =>
    let got := p.list.lookup i
    (.number got.1.toNat, { p with list := got.2 })
  | extent => (.extent p.list.size p.list.isEmpty, p)
  | inspectList => (.text p.list.inspect, p)
  | print i =>
    let printed := p.print i
    (.number printed.1, printed.2)
  | append b => (.done, { p with buffer := p.buffer.append b })
  | flush =>
    let flushed := p.buffer.flush
    (.bytes flushed.1, { p with buffer := flushed.2 })
  | buffer => (.buffer p.buffer.toList p.buffer.isEmpty p.buffer.text, p)
  | inspectBuffer => (.text p.buffer.inspect, p)

/-- Takes a list step. -/
def run (s : ListStep) : Action PrintPath Reply := fun p =>
  let applied := s.apply p
  .ok applied.1 applied.2

end ListStep

/-- A look at a memory. -/
inductive MemoryView where
  | load (a : Address)
  | loadWord (a : Address)
  | slice (start stop : Nat)
  | string (a : Address)
  | size
  | inspect
deriving DecidableEq, Repr

/-- What a look shows. -/
def MemoryView.answer (m : Memory) : MemoryView → Except Fault Reply
  | load a => do
    let b ← m.load a
    pure (.number b.toNat)
  | loadWord a => do
    let w ← m.loadWord a
    pure (.number w.toNat)
  | slice start stop =>
    match m.slice? start stop with
    | some bs => .ok (.bytes bs)
    | none => .ok .absent
  | string a => .ok (.bytes (m.string a))
  | size => .ok (.number m.size)
  | inspect => .ok (.text m.inspect)

/-- A step on a memory and a copy kept of it. -/
inductive MemoryStep where
  | view (v : MemoryView)
  | store (a : Address) (b : UInt8)
  | storeWord (a : Address) (w : UInt32)
  | write (a : Address) (bs : List UInt8)
  | contents
  | save
  | restore
deriving DecidableEq, Repr

/-- A memory with a copy kept of it. -/
structure MemorySession where
  memory : Memory
  saved : Memory

namespace MemorySession

/-- A memory of `n` zero bytes, with a copy kept. -/
def ofSize (n : Nat) : MemorySession :=
  ⟨.zeros n, .zeros n⟩

/-- Runs an action on the memory. -/
def onMemory {α : Type} (x : Action Memory α) : Action MemorySession α := fun s =>
  match s with
  | ⟨memory, saved⟩ =>
    match x memory with
    | .ok a memory' => .ok a ⟨memory', saved⟩
    | .error e memory' => .error e ⟨memory', saved⟩

end MemorySession

/-- Takes a memory step. -/
def MemoryStep.run : MemoryStep → Action MemorySession Reply
  | view v => Action.reading fun s => v.answer s.memory
  | store a b => do
    MemorySession.onMemory (Memory.store a b)
    pure .done
  | storeWord a w => do
    MemorySession.onMemory (Memory.storeWord a w)
    pure .done
  | write a bs => do
    MemorySession.onMemory (Memory.write a bs)
    pure .done
  | contents => Action.reading fun s => .ok (.contents s.memory)
  | save => fun s => .ok .done { s with saved := s.memory }
  | restore => fun s => .ok .done { s with memory := s.saved }

end FlatMachine
