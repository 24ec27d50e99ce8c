import FlatMachine.Text.Hex
import FlatMachine.Text.Record

/-!
# Why a machine cannot be set up

Each constructor is a cause with the numbers that show it.
-/

namespace FlatMachine

/-- Why a layout or an image is refused. -/
inductive SetupError where
  | truncatedHeader (length needed : Nat)
  | badMagic (found expected : UInt32)
  | missingIoSegment (length : Nat) (needed : UInt32)
  | imageTooLarge (length : Nat) (memorySize : UInt32)
  | memoryTooLarge (requested limit : UInt32)
  | stackOutsideMemory (stackStart memorySize : UInt32)
  | stackOverlapsProgram (stackStart programEnd : UInt32)
deriving DecidableEq, Repr

namespace SetupError

/-- The name of a cause. -/
def name : SetupError → String
  | truncatedHeader .. => "TruncatedHeader"
  | badMagic .. => "BadMagic"
  | missingIoSegment .. => "MissingIoSegment"
  | imageTooLarge .. => "ImageTooLarge"
  | memoryTooLarge .. => "MemoryTooLarge"
  | stackOutsideMemory .. => "StackOutsideMemory"
  | stackOverlapsProgram .. => "StackOverlapsProgram"

/-- The numbers that show a cause, each with its label. -/
def fields : SetupError → List (String × Nat)
  | truncatedHeader length needed => [("len", length), ("needed", needed)]
  | badMagic found expected => [("found", found.toNat), ("expected", expected.toNat)]
  | missingIoSegment length needed => [("len", length), ("needed", needed.toNat)]
  | imageTooLarge length memorySize => [("data_len", length), ("memory_size", memorySize.toNat)]
  | memoryTooLarge requested limit => [("requested", requested.toNat), ("limit", limit.toNat)]
  | stackOutsideMemory stackStart memorySize =>
    [("stack_start", stackStart.toNat), ("memory_size", memorySize.toNat)]
  | stackOverlapsProgram stackStart programEnd =>
    [("stack_start", stackStart.toNat), ("program_end", programEnd.toNat)]

/-- What the user reads. -/
def message : SetupError → String
  | truncatedHeader length needed =>
    s!"image is {length} bytes, shorter than the {needed}-byte SBIN header"
  | badMagic found expected =>
    "bad image magic " ++ Text.hexNumber found.toNat ++
      ", expected " ++ Text.hexNumber expected.toNat
  | missingIoSegment length needed =>
    s!"program data must cover the {needed.toNat}-byte i/o segment, got {length} bytes"
  | imageTooLarge length memorySize =>
    s!"program data ({length} bytes) does not fit in {memorySize.toNat} bytes of memory"
  | memoryTooLarge requested limit =>
    s!"memory size {requested.toNat} exceeds the {limit.toNat}-byte limit"
  | stackOutsideMemory stackStart memorySize =>
    "stack start " ++ Text.hexNumber stackStart.toNat ++
      s!" lies outside memory of {memorySize.toNat} bytes"
  | stackOverlapsProgram stackStart programEnd =>
    "stack start " ++ Text.hexNumber stackStart.toNat ++
      " overlaps the program ending at " ++ Text.hexNumber programEnd.toNat

/-- The cause and its numbers on one line. -/
def inspect (e : SetupError) : String :=
  Text.record e.name (e.fields.map fun f => (f.1, toString f.2))

end SetupError

end FlatMachine
