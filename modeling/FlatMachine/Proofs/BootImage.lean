import FlatMachine.Image.Boot
import FlatMachine.Proofs.Setup

/-!
# Booting accepts the well-formed images, and builds the machine they describe

The tests on an image are spread over the header, the loader and the layout that
the loader makes up from the header, whose stack size is a difference and whose
start of the stack is the sum again. `Image.WellFormed` puts them in one place,
as numbers read off the image's bytes, and the machine that comes out is
described byte by byte in the same terms.

Nothing here depends on what the image has in its input and output segment. That
is not an extra argument: the boot reads the header, the number of program bytes
and the bytes past the segment, and two images that agree on those boot alike.
-/

namespace FlatMachine

namespace Image

/-- The number that four bytes of an image spell, least significant first. -/
def number (image : List UInt8) (offset : Nat) : Nat :=
  Word.value ((image.drop offset).take 4)

/-- The images that boot: a header that starts with `SBIN`, a program that covers
the input and output segment, a stack pointer past the program and inside memory,
and a memory that is not too large. -/
structure WellFormed (image : List UInt8) : Prop where
  length_ge : 16 + 256 ≤ image.length
  magic_eq : image.take 4 = [0x53, 0x42, 0x49, 0x4E]
  program_le : image.length - 16 ≤ number image 8
  stack_le : number image 8 ≤ number image 12
  size_le : number image 12 ≤ 2 ^ 24

/-- The byte at a position of the memory that an image describes: the registers
for the end of memory and the start of the stack, the program past the input and
output segment, and zero anywhere else. -/
def byteAt (image : List UInt8) (i : Nat) : UInt8 :=
  if 4 ≤ i ∧ i < 8 then UInt8.ofNat (number image 12 / 256 ^ (i - 4))
  else if 8 ≤ i ∧ i < 12 then UInt8.ofNat (number image 8 / 256 ^ (i - 8))
  else if 256 ≤ i then (image.drop 16).getD i 0
  else 0

/-- The machine that an image describes, about to start. -/
structure Describes (image : List UInt8) (m : Machine) : Prop where
  running : m.status = .running
  console_eq : m.console = #[]
  dropped_eq : m.droppedStores = 0
  entry_eq : m.entryPoint.toNat = number image 4
  size_eq : m.memory.size = number image 12
  byte_eq : ∀ i, i < number image 12 → m.memory.bytes[i]? = some (byteAt image i)

end Image

/-! ## From the header and the program -/

/-- The programs that a header admits. -/
structure Header.Admits (h : Header) (program : List UInt8) : Prop where
  io_le : 256 ≤ program.length
  program_le : program.length ≤ h.stackPointer.toNat
  stack_le : h.stackPointer.toNat ≤ h.allocSize.toNat
  size_le : h.allocSize.toNat ≤ 2 ^ 24

/-- A layout that says what a header and a program say, with nothing lost to the
width of a word. -/
structure Layout.Renders (l : Layout) (h : Header) (program : List UInt8) : Prop where
  memorySize_eq : l.memorySize = h.allocSize
  programSize_eq : l.programSize.toNat = program.length
  stackSize_eq : program.length + l.stackSize.toNat = h.stackPointer.toNat

/-- The sum that gives the start of the stack is the stack pointer again, so it does
not saturate. -/
theorem Layout.Renders.stackStart_eq {l : Layout} {h : Header} {program : List UInt8}
    (hl : l.Renders h program) : l.stackStart = h.stackPointer := by
  have hlen := hl.programSize_eq
  have hsum := hl.stackSize_eq
  have hlt := Address.toNat_lt_space h.stackPointer
  apply UInt32.toNat_inj.mp
  rw [l.toNat_stackStart]
  omega

namespace Machine

/-- The layout that a header and a program ask for. -/
def programLayout (h : Header) (program : List UInt8) : Layout :=
  ⟨h.allocSize, UInt32.ofNat program.length,
    h.stackPointer - UInt32.ofNat program.length⟩

/-- The machine that a header and a program describe. -/
def booted (h : Header) (program : List UInt8) : Machine :=
  { laidOut (programLayout h program) with
    memory := (laidOut (programLayout h program)).memory.overwrite ioSegmentSize
      (program.drop 256)
    entryPoint := h.programCounter }

variable {h : Header} {program : List UInt8}

theorem programLayout_renders (hfit : program.length ≤ h.allocSize.toNat)
    (hstack : program.length ≤ h.stackPointer.toNat) :
    (programLayout h program).Renders h program := by
  have hlt : program.length < Address.space :=
    Nat.lt_of_le_of_lt hfit h.allocSize.toNat_lt
  have hlen : (programLayout h program).programSize.toNat = program.length :=
    Address.toNat_ofNat_of_lt hlt
  have hle : UInt32.ofNat program.length ≤ h.stackPointer := by
    rw [UInt32.le_iff_toNat_le, Address.toNat_ofNat_of_lt hlt]
    exact hstack
  have hsub : (programLayout h program).stackSize.toNat =
      h.stackPointer.toNat - program.length := by
    rw [← Address.toNat_ofNat_of_lt hlt]
    exact UInt32.toNat_sub_of_le _ _ hle
  exact ⟨rfl, hlen, by omega⟩

/-- The layout is valid exactly for admitted programs. -/
theorem programLayout_valid_iff (hio : 256 ≤ program.length)
    (hfit : program.length ≤ h.allocSize.toNat)
    (hstack : program.length ≤ h.stackPointer.toNat) :
    (programLayout h program).Valid ↔ h.Admits program := by
  obtain ⟨hsize, hlen, hsum⟩ := programLayout_renders hfit hstack
  constructor
  · intro hv
    have hv₂ := hv.stack_le
    have hv₃ := hv.size_le
    rw [hsize] at hv₂ hv₃
    exact ⟨hio, hstack, by omega, hv₃⟩
  · intro ha
    have ha₂ := ha.stack_le
    exact ⟨by omega, by rw [hsize]; omega, by rw [hsize]; exact ha.size_le⟩

theorem stackStart_programLayout (ha : h.Admits program) :
    (programLayout h program).stackStart = h.stackPointer :=
  (programLayout_renders (Nat.le_trans ha.program_le ha.stack_le)
    ha.program_le).stackStart_eq

theorem imageLayout_eq (hio : 256 ≤ program.length)
    (hfit : program.length ≤ h.allocSize.toNat)
    (hstack : program.length ≤ h.stackPointer.toNat) :
    imageLayout h program = .ok (programLayout h program) := by
  have hlt : program.length < Address.space :=
    Nat.lt_of_le_of_lt hfit h.allocSize.toNat_lt
  have hio' : ioSegmentSize.toNat = 256 := rfl
  simp only [imageLayout]
  rw [if_neg (by omega), if_neg (by omega), if_neg]
  · rfl
  · rw [UInt32.lt_iff_toNat_lt, Address.toNat_ofNat_of_lt hlt]
    omega

theorem imageLayout_error (hbad : ¬ (256 ≤ program.length ∧
      program.length ≤ h.allocSize.toNat ∧
      program.length ≤ h.stackPointer.toNat)) :
    ∃ e, imageLayout h program = .error e := by
  have hio : ioSegmentSize.toNat = 256 := rfl
  simp only [imageLayout]
  split
  · exact ⟨_, rfl⟩
  · split
    · exact ⟨_, rfl⟩
    · next hfit =>
        have hlt : program.length < Address.space :=
          Nat.lt_of_le_of_lt (Nat.le_of_not_lt hfit) h.allocSize.toNat_lt
        split
        · exact ⟨_, rfl⟩
        · next hstack =>
            rw [UInt32.lt_iff_toNat_lt, Address.toNat_ofNat_of_lt hlt] at hstack
            exact absurd ⟨by omega, by omega, by omega⟩ hbad

theorem loadProgram_laidOut (ha : h.Admits program) :
    loadProgram h program (laidOut (programLayout h program)) =
      .ok (booted h program) := by
  have hio := ha.io_le
  have hprogram := ha.program_le
  have hstack := ha.stack_le
  have hwrite : Memory.write ioSegmentSize (program.drop 256)
      (laidOut (programLayout h program)).memory =
      .ok () (booted h program).memory := by
    refine if_pos ?_
    show 256 + (program.drop 256).length ≤
      (laidOut (programLayout h program)).memory.size
    rw [List.length_drop, size_laidOut]
    show 256 + (program.length - 256) ≤ h.allocSize.toNat
    omega
  have hio' : ioSegmentSize.toNat = 256 := rfl
  rw [loadProgram, hio']
  simp only [hwrite]
  rfl

theorem ofProgram_of_admits (ha : h.Admits program) :
    ofProgram h program = .ok (.ok (booted h program)) := by
  have hfit : program.length ≤ h.allocSize.toNat :=
    Nat.le_trans ha.program_le ha.stack_le
  have hv := (programLayout_valid_iff ha.io_le hfit ha.program_le).mpr ha
  rw [ofProgram, imageLayout_eq ha.io_le hfit ha.program_le]
  simp only [ofLayout_of_valid hv, loadProgram_laidOut ha]
  rfl

theorem ofProgram_of_layout_error {e : SetupError} (he : imageLayout h program = .error e) :
    ofProgram h program = .ok (.error e) := by
  rw [ofProgram, he]

theorem ofProgram_of_refused {l : Layout} {e : SetupError}
    (hl : imageLayout h program = .ok l) (he : ofLayout l = .ok (.error e)) :
    ofProgram h program = .ok (.error e) := by
  rw [ofProgram, hl]
  simp only [he]

theorem ofProgram_of_not_admits (ha : ¬ h.Admits program) :
    ∃ e, ofProgram h program = .ok (.error e) := by
  by_cases hgood : 256 ≤ program.length ∧ program.length ≤ h.allocSize.toNat ∧
      program.length ≤ h.stackPointer.toNat
  · obtain ⟨hio, hfit, hstack⟩ := hgood
    have hv : ¬ (programLayout h program).Valid := fun hv =>
      ha ((programLayout_valid_iff hio hfit hstack).mp hv)
    obtain ⟨e, he⟩ := ofLayout_of_not_valid hv
    exact ⟨e, ofProgram_of_refused (imageLayout_eq hio hfit hstack) he⟩
  · obtain ⟨e, he⟩ := imageLayout_error hgood
    exact ⟨e, ofProgram_of_layout_error he⟩

/-- Of the program, only its length and what lies past the input and output
segment matter. -/
theorem ofProgram_congr {other : List UInt8} (hlen : other.length = program.length)
    (hdrop : other.drop 256 = program.drop 256) :
    ofProgram h other = ofProgram h program := by
  have hlayout : imageLayout h other = imageLayout h program := by
    simp only [imageLayout, hlen]
  have hload : loadProgram h other = loadProgram h program := by
    funext m
    have hio : ioSegmentSize.toNat = 256 := rfl
    rw [loadProgram, loadProgram, hio, hdrop]
  rw [ofProgram, ofProgram, hlayout, hload]

/-! ## The bytes of a booted machine -/

theorem size_booted : (booted h program).memory.size = h.allocSize.toNat := by
  rw [booted, Memory.size_overwrite, size_laidOut]
  rfl

theorem booted_below {i : Nat} (hi : i < 256) :
    (booted h program).memory.bytes[i]? =
      (laidOut (programLayout h program)).memory.bytes[i]? :=
  Memory.overwrite_frame (.inl hi)

theorem booted_program (ha : h.Admits program) {i : Nat} (hio : 256 ≤ i)
    (hi : i < program.length) :
    (booted h program).memory.bytes[i]? = program[i]? := by
  have hprogram := ha.program_le
  have hstack := ha.stack_le
  have hfit : 256 + (program.drop 256).length ≤
      (laidOut (programLayout h program)).memory.size := by
    rw [List.length_drop, size_laidOut]
    show 256 + (program.length - 256) ≤ h.allocSize.toNat
    omega
  have hwindow : (booted h program).memory.bytes[256 + (i - 256)]? =
      (program.drop 256)[i - 256]? :=
    Memory.overwrite_window (a := ioSegmentSize) hfit
      (by rw [List.length_drop]; omega)
  rw [List.getElem?_drop] at hwindow
  rw [show 256 + (i - 256) = i by omega] at hwindow
  exact hwindow

theorem booted_above {i : Nat} (hio : 256 ≤ i) (hi : program.length ≤ i)
    (hsize : i < h.allocSize.toNat) :
    (booted h program).memory.bytes[i]? = some 0 := by
  have hframe : (booted h program).memory.bytes[i]? =
      (laidOut (programLayout h program)).memory.bytes[i]? := by
    refine Memory.overwrite_frame (.inr ?_)
    rw [List.length_drop]
    show 256 + (program.length - 256) ≤ i
    omega
  rw [hframe]
  exact laidOut_zero (.inr (by omega)) hsize

theorem booted_ready (ha : h.Admits program) :
    (booted h program).Ready h.stackPointer h.allocSize := by
  have hfit : program.length ≤ h.allocSize.toNat :=
    Nat.le_trans ha.program_le ha.stack_le
  have hv := (programLayout_valid_iff ha.io_le hfit ha.program_le).mpr ha
  have hready := laidOut_ready hv
  rw [stackStart_programLayout ha] at hready
  have hsize : (booted h program).memory.size =
      (laidOut (programLayout h program)).memory.size := Memory.size_overwrite _ _ _
  refine ⟨rfl, ?_, ?_, size_booted, hready.io_le, hready.stack_le, hready.size_le⟩
  · refine Eq.trans ?_ hready.stackStart_eq
    refine Memory.loadWord_congr hsize fun i _ hi => booted_below ?_
    exact Nat.lt_of_lt_of_le hi (by decide)
  · refine Eq.trans ?_ hready.memEnd_eq
    refine Memory.loadWord_congr hsize fun i _ hi => booted_below ?_
    exact Nat.lt_of_lt_of_le hi (by decide)

end Machine

/-! ## From the image -/

namespace Image

variable {image : List UInt8}

/-- The header of an image that is long enough to have one. -/
def header (image : List UInt8) : Header :=
  ⟨Header.wordAt image 0, Header.wordAt image 1, Header.wordAt image 2,
    Header.wordAt image 3⟩

theorem toNat_wordAt {i : Nat} (h : 4 * i + 4 ≤ image.length) :
    (Header.wordAt image i).toNat = number image (4 * i) := by
  refine Word.toNat_ofBytes ?_
  rw [List.length_take, List.length_drop]
  show min 4 (image.length - 4 * i) = 4
  omega

theorem hasProperMagic_iff (h : 16 ≤ image.length) :
    (header image).hasProperMagic = true ↔
      image.take 4 = [0x53, 0x42, 0x49, 0x4E] := by
  have hmagic : Word.toBytes Header.properMagic = [0x53, 0x42, 0x49, 0x4E] := by
    decide
  have hlen : (image.take 4).length = 4 := by
    rw [List.length_take]
    omega
  rw [Header.hasProperMagic, beq_iff_eq, ← hmagic]
  show Word.ofBytes (image.take 4) = Header.properMagic ↔ _
  constructor
  · intro heq
    rw [← heq, Word.toBytes_ofBytes hlen]
  · intro heq
    rw [heq, Word.ofBytes_toBytes]

theorem boot_of_short (h : image.length < 16) :
    Machine.boot image = .ok (.error (.truncatedHeader image.length Header.size)) := by
  have hheader : Header.ofBytes? image = none := if_pos h
  rw [Machine.boot, hheader]

theorem boot_of_bad_magic (hlen : 16 ≤ image.length)
    (hmagic : ¬ (header image).hasProperMagic = true) :
    Machine.boot image =
      .ok (.error (.badMagic (header image).magic Header.properMagic)) := by
  have hheader : Header.ofBytes? image = some (header image) :=
    if_neg (Nat.not_lt_of_le hlen)
  rw [Machine.boot, hheader]
  exact if_neg hmagic

theorem boot_eq (hlen : 16 ≤ image.length)
    (hmagic : (header image).hasProperMagic = true) :
    Machine.boot image = Machine.ofProgram (header image) (image.drop 16) := by
  have hheader : Header.ofBytes? image = some (header image) :=
    if_neg (Nat.not_lt_of_le hlen)
  rw [Machine.boot, hheader]
  exact if_pos hmagic

/-- The image is well formed exactly when its header admits its program. -/
theorem wellFormed_iff (hlen : 16 ≤ image.length)
    (hmagic : (header image).hasProperMagic = true) :
    WellFormed image ↔ (header image).Admits (image.drop 16) := by
  have hstack : (header image).stackPointer.toNat = number image 8 :=
    toNat_wordAt (i := 2) (by omega)
  have hsize : (header image).allocSize.toNat = number image 12 :=
    toNat_wordAt (i := 3) (by omega)
  have hprogram : (image.drop 16).length = image.length - 16 := List.length_drop
  constructor
  · intro hw
    have hge := hw.length_ge
    exact ⟨by omega, by rw [hprogram, hstack]; exact hw.program_le,
      by rw [hstack, hsize]; exact hw.stack_le, by rw [hsize]; exact hw.size_le⟩
  · intro ha
    have hio := ha.io_le
    exact ⟨by omega, (hasProperMagic_iff hlen).mp hmagic,
      by rw [← hprogram, ← hstack]; exact ha.program_le,
      by rw [← hstack, ← hsize]; exact ha.stack_le, by rw [← hsize]; exact ha.size_le⟩

/-- Every image is either well formed and boots, or refused. -/
theorem boot_cases (image : List UInt8) :
    (WellFormed image ∧ (header image).Admits (image.drop 16) ∧
        Machine.boot image =
          .ok (.ok (Machine.booted (header image) (image.drop 16)))) ∨
      (¬ WellFormed image ∧ ∃ e, Machine.boot image = .ok (.error e)) := by
  by_cases hlen : 16 ≤ image.length
  · by_cases hmagic : (header image).hasProperMagic = true
    · rw [boot_eq hlen hmagic, wellFormed_iff hlen hmagic]
      by_cases ha : (header image).Admits (image.drop 16)
      · exact .inl ⟨ha, ha, Machine.ofProgram_of_admits ha⟩
      · exact .inr ⟨ha, Machine.ofProgram_of_not_admits ha⟩
    · exact .inr ⟨fun hw => hmagic ((hasProperMagic_iff hlen).mpr hw.magic_eq), _,
        boot_of_bad_magic hlen hmagic⟩
  · refine .inr ⟨fun hw => hlen ?_, _, boot_of_short (Nat.lt_of_not_le hlen)⟩
    have hge := hw.length_ge
    omega

theorem booted_describes (hlen : 16 ≤ image.length)
    (ha : (header image).Admits (image.drop 16)) :
    Describes image (Machine.booted (header image) (image.drop 16)) := by
  have hstack : (header image).stackPointer.toNat = number image 8 :=
    toNat_wordAt (i := 2) (by omega)
  have hsize : (header image).allocSize.toNat = number image 12 :=
    toNat_wordAt (i := 3) (by omega)
  have hfit := Nat.le_trans ha.program_le ha.stack_le
  have hv := (Machine.programLayout_valid_iff ha.io_le hfit ha.program_le).mpr ha
  refine ⟨rfl, rfl, rfl, toNat_wordAt (i := 1) (by omega), ?_, ?_⟩
  · rw [Machine.size_booted, hsize]
  · intro i hi
    rw [← hsize] at hi
    rcases Nat.lt_or_ge i 256 with hio | hio
    · rw [Machine.booted_below hio]
      unfold byteAt
      split
      · next hin =>
          -- The register for the end of memory.
          have hword := Machine.laidOut_memEnd hv (k := i - 4) (by omega)
          rw [show 4 + (i - 4) = i by omega, Word.toBytes_getElem? (by omega)] at hword
          rw [hword, ← hsize]
          rfl
      · split
        · next hin =>
            -- The register for the start of the stack.
            have hword := Machine.laidOut_stackStart hv (k := i - 8) (by omega)
            rw [show 8 + (i - 8) = i by omega, Word.toBytes_getElem? (by omega),
              Machine.stackStart_programLayout ha, hstack] at hword
            exact hword
        · rw [if_neg (by omega)]
          exact Machine.laidOut_zero (by omega) hi
    · rw [byteAt, if_neg (by omega), if_neg (by omega), if_pos hio,
        List.getD_eq_getElem?_getD]
      rcases Nat.lt_or_ge i (image.drop 16).length with hp | hp
      · rw [Machine.booted_program ha hio hp, List.getElem?_eq_getElem hp]
        rfl
      · rw [Machine.booted_above hio hp hi, List.getElem?_eq_none hp]
        rfl

theorem header_congr {other : List UInt8} (htake : other.take 16 = image.take 16) :
    header other = header image := by
  have hword : ∀ i, i < 4 → Header.wordAt other i = Header.wordAt image i := by
    intro i hi
    have hcut : ∀ bs : List UInt8, (bs.drop (4 * i)).take 4 =
        ((bs.take 16).drop (4 * i)).take 4 := by
      intro bs
      rw [List.drop_take, List.take_take, Nat.min_eq_left (by omega)]
    show Word.ofBytes ((other.drop (4 * i)).take 4) =
      Word.ofBytes ((image.drop (4 * i)).take 4)
    rw [hcut other, hcut image, htake]
  rw [header, header, hword 0 (by decide), hword 1 (by decide), hword 2 (by decide),
    hword 3 (by decide)]

theorem boot_congr {other : List UInt8} (hlen : other.length = image.length)
    (htake : other.take 16 = image.take 16)
    (hdrop : other.drop 272 = image.drop 272) :
    Machine.boot other = Machine.boot image := by
  have hprogram : Machine.ofProgram (header image) (other.drop 16) =
      Machine.ofProgram (header image) (image.drop 16) := by
    refine Machine.ofProgram_congr ?_ ?_
    · rw [List.length_drop, List.length_drop, hlen]
    · rw [List.drop_drop, List.drop_drop, hdrop]
  rw [Machine.boot, Machine.boot]
  rcases Nat.lt_or_ge image.length 16 with hshort | hlong
  · have hother : Header.ofBytes? other = none := if_pos (hlen ▸ hshort)
    have himage : Header.ofBytes? image = none := if_pos hshort
    rw [hother, himage, hlen]
  · have hother : Header.ofBytes? other = some (header other) :=
      if_neg (Nat.not_lt_of_le (hlen ▸ hlong))
    have himage : Header.ofBytes? image = some (header image) :=
      if_neg (Nat.not_lt_of_le hlong)
    rw [hother, himage, header_congr htake]
    exact congrArg (fun r => if (header image).hasProperMagic then r else _) hprogram

/-- Booting never faults. It answers with a machine exactly for the well-formed
images, that machine is the one the image describes, and the image's own input
and output segment makes no difference to the answer. -/
theorem boot_builds_described (image : List UInt8) :
    (∃ answer, Machine.boot image = .ok answer) ∧
    ((∃ m, Machine.boot image = .ok (.ok m)) ↔ WellFormed image) ∧
    (∀ m, Machine.boot image = .ok (.ok m) → Describes image m) ∧
    (∀ other : List UInt8, other.length = image.length →
      other.take 16 = image.take 16 → other.drop 272 = image.drop 272 →
      Machine.boot other = Machine.boot image) := by
  refine ⟨?_, ?_, ?_, fun other => boot_congr⟩
  · rcases boot_cases image with ⟨-, -, hboot⟩ | ⟨-, e, hboot⟩
    · exact ⟨_, hboot⟩
    · exact ⟨_, hboot⟩
  · constructor
    · rintro ⟨m, hm⟩
      rcases boot_cases image with ⟨hw, -, -⟩ | ⟨-, e, hboot⟩
      · exact hw
      · rw [hboot, Except.ok.injEq] at hm
        cases hm
    · intro hw
      rcases boot_cases image with ⟨-, -, hboot⟩ | ⟨hbad, -⟩
      · exact ⟨_, hboot⟩
      · exact absurd hw hbad
  · intro m hm
    rcases boot_cases image with ⟨hw, ha, hboot⟩ | ⟨-, e, hboot⟩
    · rw [hboot, Except.ok.injEq, Except.ok.injEq] at hm
      have hge := hw.length_ge
      rw [← hm]
      exact booted_describes (by omega) ha
    · rw [hboot, Except.ok.injEq] at hm
      cases hm

-- The smallest image that boots: no program past the segment, no stack, no heap.
example : WellFormed
    ((Header.make 0 256 256).withProgram (List.replicate 256 0)) :=
  ⟨by decide +kernel, by decide +kernel, by decide +kernel, by decide +kernel,
    by decide +kernel⟩

end Image

/-! ## Fresh machines -/

namespace Machine

/-- The machines as they are set up, from a layout or from an image. -/
inductive Fresh (m : Machine) : Prop
  | ofLayout {l : Layout} (h : Machine.ofLayout l = .ok (.ok m)) : Fresh m
  | ofImage {image : List UInt8} (h : Machine.boot image = .ok (.ok m)) : Fresh m

variable {m : Machine}

theorem eq_booted {image : List UInt8} (h : boot image = .ok (.ok m)) :
    ∃ (hd : Header) (program : List UInt8), hd.Admits program ∧
      m = booted hd program := by
  rcases Image.boot_cases image with ⟨-, ha, hboot⟩ | ⟨-, e, hboot⟩
  · rw [hboot, Except.ok.injEq, Except.ok.injEq] at h
    exact ⟨_, _, ha, h.symm⟩
  · rw [hboot, Except.ok.injEq] at h
    cases h

theorem Fresh.ready (h : m.Fresh) : ∃ stackStart memEnd, m.Ready stackStart memEnd := by
  cases h with
  | ofLayout h =>
      obtain ⟨hv, rfl⟩ := ofLayout_eq_ok_iff.mp h
      exact ⟨_, _, laidOut_ready hv⟩
  | ofImage h =>
      obtain ⟨hd, program, ha, rfl⟩ := eq_booted h
      exact ⟨_, _, booted_ready ha⟩

theorem Fresh.console_eq (h : m.Fresh) : m.console = #[] := by
  cases h with
  | ofLayout h =>
      obtain ⟨-, rfl⟩ := ofLayout_eq_ok_iff.mp h
      rfl
  | ofImage h =>
      obtain ⟨hd, program, -, rfl⟩ := eq_booted h
      rfl

theorem Fresh.dropped_eq (h : m.Fresh) : m.droppedStores = 0 := by
  cases h with
  | ofLayout h =>
      obtain ⟨-, rfl⟩ := ofLayout_eq_ok_iff.mp h
      rfl
  | ofImage h =>
      obtain ⟨hd, program, -, rfl⟩ := eq_booted h
      rfl

end Machine

end FlatMachine
