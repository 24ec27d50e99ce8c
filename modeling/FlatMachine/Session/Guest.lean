import FlatMachine.Heap.Reentrant
import FlatMachine.Session.Reply

/-!
# Guest steps

What a guest program can do on a bus: access bytes and words, print, halt, and
use its heap.
-/

namespace FlatMachine

/-- An access to a bus. -/
inductive AccessStep where
  | load (a : Address)
  | loadWord (a : Address)
  | store (a : Address) (b : UInt8)
  | storeWord (a : Address) (w : UInt32)
deriving DecidableEq, Repr

/-- Takes an access step. -/
def AccessStep.run {σ : Type} [Bus σ] : AccessStep → Action σ Reply
  | load a => do
    let b ← Bus.load a
    pure (.number b.toNat)
  | loadWord a => do
    let w ← Bus.loadWord a
    pure (.number w.toNat)
  | store a b => do
    Bus.store a b
    pure .done
  | storeWord a w => do
    Bus.storeWord a w
    pure .done

/-- A step of a guest. -/
inductive GuestStep where
  | access (s : AccessStep)
  | writeChar (c : UInt8)
  | printLineAt (a : Address)
  | printLine (s : List UInt8)
  | halt
  | allocate (size : UInt32)
  | reserve (size : UInt32)
  | free (a : Address)
  | remaining
  | heapStart
  | isInitialized
  | inspectHeap
  | newHeap
  | storeString (s : List UInt8)
deriving DecidableEq, Repr

/-- Takes a guest step. -/
def GuestStep.run {σ : Type} [Bus σ] : GuestStep → Action (Guest σ) Reply
  | access s => s.run
  | writeChar c => do
    FlatMachine.writeChar c
    pure .done
  | printLineAt a => do
    FlatMachine.printLineAt a
    pure .done
  | printLine s => do
    FlatMachine.printLine s
    pure .done
  | halt => .halted <$> FlatMachine.halt
  | allocate size => .ofOutcome <$> Guest.allocate size
  | reserve size => .ofAddress? <$> Guest.reserve size
  | free a => do
    Guest.free a
    pure .done
  | remaining => do
    let n ← Guest.remaining
    pure (.number n.toNat)
  | heapStart => do
    let a ← Guest.heapStart
    pure (.number a.toNat)
  | isInitialized => do
    let h ← Guest.getHeap
    pure (.flag h.isInitialized)
  | inspectHeap => do
    let h ← Guest.getHeap
    pure (.text h.inspect)
  | newHeap => do
    Guest.setHeap {}
    pure (.flag true)
  | storeString s => .ofOutcome <$> Guest.storeString s

/-- Takes a guest step with an empty record of accesses. -/
def GuestStep.runTraced (s : GuestStep) : Action (Guest TracedRam) Reply := fun g =>
  s.run { g with bus := g.bus.clear }

/-- A step of a user of aligned blocks. -/
inductive AllocatorStep where
  | access (s : AccessStep)
  | alloc (size align : Nat)
  | dealloc (a : Address) (size align : Nat)
deriving DecidableEq, Repr

/-- Takes an allocator step. A denied block is the null address. -/
def AllocatorStep.run {σ : Type} [Bus (Allocator σ)] : AllocatorStep → Action (Allocator σ) Reply
  | access s => s.run
  | alloc size align =>
    match Request.make? size align with
    | none => pure .invalidRequest
    | some r => do
      let a? ← Allocator.alloc r
      pure (.number (a?.getD Address.null).toNat)
  | dealloc a size align =>
    match Request.make? size align with
    | none => pure .invalidRequest
    | some r => do
      Allocator.dealloc a r
      pure .done

/-- Takes an allocator step with no sightings yet. -/
def AllocatorStep.runCalling (s : AllocatorStep) : Action (Allocator CallingRam) Reply := fun a =>
  s.run { a with bus := a.bus.clear }

end FlatMachine
