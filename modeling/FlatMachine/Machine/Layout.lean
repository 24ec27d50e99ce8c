import FlatMachine.Device
import FlatMachine.Machine.SetupError
import FlatMachine.Word

/-!
# How memory is laid out

From the bottom: the program, which covers the input and output segment, then the
stack, then one word, then the heap up to the end of memory. The sums saturate,
so a layout that does not fit can still be described, and is then refused.
-/

namespace FlatMachine

/-- The sizes that fix where everything lies. -/
structure Layout where
  memorySize : UInt32
  programSize : UInt32
  stackSize : UInt32
deriving DecidableEq, Repr

namespace Layout

/-- The largest memory a machine may have. -/
def maxMemorySize : UInt32 := 0x01000000

/-- The memory a machine has unless told otherwise. -/
def defaultMemorySize : UInt32 := 0x00010000

/-- The stack a machine has unless told otherwise. -/
def defaultStackSize : UInt32 := 1024

/-- The layout of a machine without a program of its own. -/
def blank : Layout :=
  ⟨defaultMemorySize, ioSegmentSize, defaultStackSize⟩

/-- Where the stack starts: right above the room it grows down into. -/
def stackStart (l : Layout) : Address :=
  Address.saturatingAdd l.programSize l.stackSize

/-- Where the heap starts: one word past the start of the stack. -/
def heapStart (l : Layout) : Address :=
  l.stackStart.saturatingAdd (UInt32.ofNat Word.size)

/-- Accepts a layout, or gives the first reason against it. -/
def validate (l : Layout) : Except SetupError Unit :=
  if maxMemorySize < l.memorySize then
    .error (.memoryTooLarge l.memorySize maxMemorySize)
  else if l.programSize < ioSegmentSize then
    .error (.missingIoSegment l.programSize.toNat ioSegmentSize)
  else if l.memorySize < l.programSize then
    .error (.imageTooLarge l.programSize.toNat l.memorySize)
  else if l.memorySize < l.stackStart then
    .error (.stackOutsideMemory l.stackStart l.memorySize)
  else
    .ok ()

/-- The sizes on one line. -/
def inspect (l : Layout) : String :=
  Text.record "MachineConfig"
    [("memory_size", toString l.memorySize.toNat), ("program_size", toString l.programSize.toNat),
     ("stack_size", toString l.stackSize.toNat)]

end Layout

end FlatMachine
