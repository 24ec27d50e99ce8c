import FlatMachine.Address
import FlatMachine.Text.Hex

/-!
# Actions and faults

An action works on some storage and either answers or faults. A fault keeps the
storage as it was when the fault arose: bytes stored on the way stay stored.
-/

namespace FlatMachine

/-- Why an action breaks off. -/
inductive Fault where
  | loadByte (a : Address)
  | storeByte (a : Address)
  | loadWord (a : Address)
  | storeWord (a : Address)
  | write (start stop size : Nat)
  | emptyRange
  | rangeOutOfBounds
  /-- A walk for a zero byte has been around the whole address space. -/
  | endless
deriving DecidableEq, Repr

/-- What the user reads. -/
def Fault.message : Fault → String
  | loadByte a => "load u8 out of bounds: addr = " ++ Text.hexNumber a.toNat
  | storeByte a => "store u8 out of bounds: addr = " ++ Text.hexNumber a.toNat
  | loadWord a => "load u32 out of bounds: addr = " ++ Text.hexNumber a.toNat
  | storeWord a => "store u32 out of bounds: addr = " ++ Text.hexNumber a.toNat
  | write start stop size =>
    "write out of bounds: " ++ Text.hexNumber start ++ ".." ++ Text.hexNumber stop ++
      s!" (memory is {size} bytes)"
  | emptyRange => "invalid memory range"
  | rangeOutOfBounds => "range out of bounds"
  | endless => "no zero byte in the whole address space"

/-- A computation on storage of type `σ` that may fault. -/
abbrev Action (σ : Type) := EStateM Fault σ

namespace Action

variable {σ α : Type}

/-- An action that only looks at the storage. -/
def reading (f : σ → Except Fault α) : Action σ α := fun s =>
  match f s with
  | .ok a => .ok a s
  | .error e => .error e s

end Action

end FlatMachine
