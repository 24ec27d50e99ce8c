import FlatMachine.Image.Header
import FlatMachine.Machine.State

/-!
# Booting an image

The image is checked from its outside in, and the first trouble found is the
answer. What the image has in the input and output segment is not loaded: the
registers there belong to the machine.
-/

namespace FlatMachine

namespace Machine

/-- The layout that an image asks for, or the first reason against the image. -/
def imageLayout (h : Header) (program : List UInt8) : Except SetupError Layout :=
  let length := program.length
  if length < ioSegmentSize.toNat then
    .error (.missingIoSegment length ioSegmentSize)
  else if h.allocSize.toNat < length then
    .error (.imageTooLarge length h.allocSize)
  else
    let programSize := UInt32.ofNat length
    if h.stackPointer < programSize then
      .error (.stackOverlapsProgram h.stackPointer programSize)
    else
      .ok ⟨h.allocSize, programSize, h.stackPointer - programSize⟩

/-- Loads a program that covers the input and output segment, and sets where it
starts. -/
def loadProgram (h : Header) (program : List UInt8) (m : Machine) : Except Fault Machine :=
  match Memory.write ioSegmentSize (program.drop ioSegmentSize.toNat) m.memory with
  | .ok () memory => .ok { m with memory, entryPoint := h.programCounter }
  | .error e _ => .error e

/-- The machine for a header and a program. -/
def ofProgram (h : Header) (program : List UInt8) : Except Fault (Except SetupError Machine) :=
  match imageLayout h program with
  | .error e => .ok (.error e)
  | .ok l =>
    match ofLayout l with
    | .error e => .error e
    | .ok (.error e) => .ok (.error e)
    | .ok (.ok m) => .ok <$> loadProgram h program m

/-- The machine that an image describes, about to start. An image that is refused
is an answer, and only a byte loaded outside memory would be a fault. -/
def boot (image : List UInt8) : Except Fault (Except SetupError Machine) :=
  match Header.ofBytes? image with
  | none => .ok (.error (.truncatedHeader image.length Header.size))
  | some h =>
    if h.hasProperMagic then
      ofProgram h (image.drop Header.size)
    else
      .ok (.error (.badMagic h.magic Header.properMagic))

end Machine

end FlatMachine
