import FlatMachine.Heap.Guest

/-!
# Aligned blocks

A request asks for a size and an alignment. It is served from the heap by a block
padded so that an aligned one of the right size lies in it. The bus can be held
once only: a request that arrives while another is being served is refused, and
so is one that the address space could not hold. A refused request touches
neither the bus nor the heap.

While a request is being served, others see the heap as it was before, and the
new cursor only from the moment the block is granted or denied.
-/

namespace FlatMachine

/-- What may be requested: the alignment is a power of two, and the size rounded
up to it stays below 2^63. -/
def Request.Valid (size align : Nat) : Prop :=
  (∃ k, k < 64 ∧ align = 1 <<< k) ∧ size + align ≤ 1 <<< 63

instance (size align : Nat) : Decidable (Request.Valid size align) :=
  inferInstanceAs (Decidable (_ ∧ _))

/-- A request for an aligned block. -/
structure Request where
  size : Nat
  align : Nat
  valid : Request.Valid size align

namespace Request

/-- The request for the given size and alignment, if it is valid. -/
def make? (size align : Nat) : Option Request :=
  if h : Valid size align then some ⟨size, align, h⟩ else none

/-- The block to take off the heap, unless the address space could not hold it. -/
def padded? (r : Request) : Option UInt32 :=
  if r.align < Address.space ∧ r.size + (r.align - 1) < Address.space then
    some (UInt32.ofNat (r.size + (r.align - 1)))
  else
    none

end Request

/-- A heap for aligned blocks, with the bus it works on. -/
structure Allocator (σ : Type) where
  bus : σ
  heap : Heap := {}
  inUse : Bool := false

namespace Allocator

variable {σ α : Type}

/-- Runs an action on the bus. -/
def onBus (x : Action σ α) : Action (Allocator σ) α := fun s =>
  match s with
  | ⟨bus, heap, inUse⟩ =>
    match x bus with
    | .ok a bus' => .ok a ⟨bus', heap, inUse⟩
    | .error e bus' => .error e ⟨bus', heap, inUse⟩

instance [Bus σ] : Bus (Allocator σ) where
  load a := onBus (Bus.load a)
  store a b := onBus (Bus.store a b)

/-- Whether a request is being served. -/
def isInUse : Action (Allocator σ) Bool := fun s =>
  .ok s.inUse s

/-- Runs an action that holds the bus, and lets go of it whatever happens. -/
def holding (x : Action (Allocator σ) α) : Action (Allocator σ) α := fun s =>
  match x { s with inUse := true } with
  | .ok a s' => .ok a { s' with inUse := false }
  | .error e s' => .error e { s' with inUse := false }

/-- Runs an action with a copy of the heap, and publishes the copy at its end. -/
def onHeap (x : Action (Guest (Allocator σ)) α) : Action (Allocator σ) α := fun s =>
  let heap := s.heap
  match x ⟨s, heap⟩ with
  | .ok a g => .ok a { g.bus with heap := g.heap }
  | .error e g => .error e g.bus

/-- An aligned block, if there is one. A denied request complains and halts. -/
def alloc [Bus (Allocator σ)] (r : Request) : Action (Allocator σ) (Option Address) := do
  match r.padded? with
  | none => pure none
  | some padded =>
    if ← isInUse then
      pure none
    else
      holding do
        match ← onHeap (Guest.reserve padded) with
        | some a => pure (a.alignUp? r.align)
        | none =>
          let _ ← haltOutOfMemory
          pure none

/-- Gives a block back, which changes nothing. -/
def dealloc (_ : Address) (_ : Request) : Action (Allocator σ) Unit :=
  pure ()

end Allocator

end FlatMachine
