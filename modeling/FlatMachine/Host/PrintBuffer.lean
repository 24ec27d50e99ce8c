import FlatMachine.Text.Record
import FlatMachine.Text.Utf8

/-!
# The print buffer

Bytes collected for the host to show.
-/

namespace FlatMachine

/-- The bytes collected so far. -/
structure PrintBuffer where
  bytes : Array UInt8 := #[]
deriving DecidableEq

namespace PrintBuffer

/-- Adds a byte at the end. -/
def append (p : PrintBuffer) (b : UInt8) : PrintBuffer :=
  ⟨p.bytes.push b⟩

/-- The bytes collected. -/
def toList (p : PrintBuffer) : List UInt8 :=
  p.bytes.toList

/-- The number of bytes collected. -/
def size (p : PrintBuffer) : Nat :=
  p.bytes.size

/-- Whether nothing has been collected. -/
def isEmpty (p : PrintBuffer) : Bool :=
  p.bytes.isEmpty

/-- Hands the bytes back and starts afresh. -/
def flush (p : PrintBuffer) : List UInt8 × PrintBuffer :=
  (p.toList, {})

/-- The bytes as text. -/
def text (p : PrintBuffer) : String :=
  Text.decode p.toList

/-- The bytes on one line. -/
def inspect (p : PrintBuffer) : String :=
  Text.record "ScratchPrintBuffer" [("buf", Text.byteList p.toList)]

end PrintBuffer

end FlatMachine
