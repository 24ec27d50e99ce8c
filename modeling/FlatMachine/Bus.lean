import FlatMachine.Action
import FlatMachine.Word

/-!
# Buses

A bus is anything that loads and stores single bytes. Longer accesses are made of
byte accesses at ascending addresses, and the address after the last is the
first. Everything a guest program does goes through a bus.
-/

namespace FlatMachine

/-- Storage that can be accessed byte by byte. -/
class Bus (σ : Type) where
  /-- Loads the byte at an address. -/
  load : Address → Action σ UInt8
  /-- Stores a byte at an address. -/
  store : Address → UInt8 → Action σ Unit

namespace Bus

variable {σ : Type} [Bus σ]

/-- Loads a number of bytes, from an address upwards. -/
def loadBytes : Nat → Address → Action σ (List UInt8)
  | 0, _ => pure []
  | n + 1, a => do
    let b ← load a
    let bs ← loadBytes n (a + 1)
    pure (b :: bs)

/-- Stores bytes, from an address upwards. -/
def storeBytes : Address → List UInt8 → Action σ Unit
  | _, [] => pure ()
  | a, b :: bs => do
    store a b
    storeBytes (a + 1) bs

/-- Loads a word as four bytes. -/
def loadWord (a : Address) : Action σ UInt32 := do
  let bs ← loadBytes Word.size a
  pure (Word.ofBytes bs)

/-- Stores a word as four bytes. -/
def storeWord (a : Address) (w : UInt32) : Action σ Unit :=
  storeBytes a (Word.toBytes w)

end Bus

end FlatMachine
