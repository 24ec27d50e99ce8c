import FlatMachine.Text.Record
import FlatMachine.Word

/-!
# Image headers

An executable image starts with four little-endian words: a magic number, the
address at which to start, the start of the stack, and the size of memory. The
program's own bytes follow. Reading a header looks at its sixteen bytes only, and
leaves the judgement on the magic number to whoever boots the image.
-/

namespace FlatMachine

/-- The words at the start of an image. -/
structure Header where
  magic : UInt32
  programCounter : UInt32
  stackPointer : UInt32
  allocSize : UInt32
deriving DecidableEq, Repr

namespace Header

/-- The bytes `SBIN`, read as a word. -/
def properMagic : UInt32 := 0x4E494253

/-- The number of bytes in a header. -/
def size : Nat := 16

/-- A header with the proper magic number. -/
def make (programCounter stackPointer allocSize : UInt32) : Header :=
  ⟨properMagic, programCounter, stackPointer, allocSize⟩

/-- Whether the magic number is the proper one. -/
def hasProperMagic (h : Header) : Bool :=
  h.magic == properMagic

/-- The words of a header, in order. -/
def words (h : Header) : List UInt32 :=
  [h.magic, h.programCounter, h.stackPointer, h.allocSize]

/-- The bytes of a header. -/
def toBytes (h : Header) : List UInt8 :=
  h.words.flatMap Word.toBytes

/-- The word at position `i` of a sequence of words. -/
def wordAt (bs : List UInt8) (i : Nat) : UInt32 :=
  Word.ofBytes ((bs.drop (Word.size * i)).take Word.size)

/-- The header at the start of an image, if the image is long enough. -/
def ofBytes? (bs : List UInt8) : Option Header :=
  if bs.length < size then none
  else some ⟨wordAt bs 0, wordAt bs 1, wordAt bs 2, wordAt bs 3⟩

/-- The header on one line. -/
def inspect (h : Header) : String :=
  Text.record "SbinHeader"
    [("magic", toString h.magic.toNat), ("program_counter", toString h.programCounter.toNat),
     ("stack_pointer", toString h.stackPointer.toNat), ("alloc_size", toString h.allocSize.toNat)]

/-- The image with this header and the given program. -/
def withProgram (h : Header) (program : List UInt8) : List UInt8 :=
  h.toBytes ++ program

end Header

end FlatMachine
