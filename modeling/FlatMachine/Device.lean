import FlatMachine.Address

/-!
# The device registers

The lowest addresses of a machine are not ordinary storage. Four registers live
there, inside an input and output segment that every program has to cover.
-/

namespace FlatMachine

/-- The registers a program finds at fixed addresses. -/
inductive Register where
  /-- Every byte stored here appears on the console. -/
  | sink
  /-- The size of memory, as a word. -/
  | memEnd
  /-- The start of the stack, as a word. -/
  | stackStart
  /-- A byte other than zero stored here stops the machine. -/
  | haltFlag
deriving DecidableEq, Repr

namespace Register

/-- Every register, by ascending address. -/
def all : List Register := [sink, memEnd, stackStart, haltFlag]

/-- Where a register lives. -/
def address : Register → Address
  | sink => 0
  | memEnd => 4
  | stackStart => 8
  | haltFlag => 12

/-- How many bytes a register takes. -/
def width : Register → Nat
  | sink => 1
  | memEnd => 4
  | stackStart => 4
  | haltFlag => 1

/-- Whether an address is one of the register's bytes. -/
def covers (r : Register) (a : Address) : Bool :=
  r.address.toNat ≤ a.toNat && a.toNat < r.address.toNat + r.width

end Register

/-- The size of the input and output segment. -/
def ioSegmentSize : UInt32 := 256

namespace Address

/-- Whether an address belongs to some register. -/
def isDeviceRegister (a : Address) : Bool :=
  Register.all.any (·.covers a)

/-- Whether an address lies in the input and output segment. -/
def inIoSegment (a : Address) : Bool :=
  a < ioSegmentSize

end Address

end FlatMachine
