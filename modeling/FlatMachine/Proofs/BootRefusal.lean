import FlatMachine.Proofs.BootImage

/-!
# The first rule that an image breaks

An image can be refused in two places. The loader looks at the header and at the
length of the program and makes up a layout, and the layout is then looked at by
tests of its own, two of which repeat the loader's. Between the two the length is
cut down to a word, subtracted from the stack pointer and added to it again.

Here all rules stand in one list, each an inequality between numbers that the image
spells. An image is refused by the first rule of the list that it breaks, and the
error gives those numbers. What makes the two places act like one list is
`Layout.Renders`: nothing is lost on the way, so the second place judges the numbers
of the image itself, and the tests that it repeats have been passed before.
-/

namespace FlatMachine

namespace Image

/-- What an image is asked for. -/
inductive Rule where
  /-- There is a whole header. -/
  | header
  | magic
  /-- The program covers the input and output segment. -/
  | segment
  /-- The program fits in memory. -/
  | room
  /-- The stack starts past the program. -/
  | stackAbove
  /-- Memory is not too large. -/
  | limit
  /-- The stack starts inside memory. -/
  | stackInside
deriving DecidableEq, Repr

namespace Rule

/-- The rules in the order in which they are checked. -/
def inOrder : List Rule :=
  [header, magic, segment, room, stackAbove, limit, stackInside]

/-- Whether an image breaks a rule. -/
def brokenBy (image : List UInt8) : Rule → Bool
  | header => image.length < 16
  | magic => number image 0 ≠ 0x4E494253
  | segment => image.length - 16 < 256
  | room => number image 12 < image.length - 16
  | stackAbove => number image 8 < image.length - 16
  | limit => 2 ^ 24 < number image 12
  | stackInside => number image 12 < number image 8

/-- The first rule that an image breaks. -/
def firstBroken? (image : List UInt8) : Option Rule :=
  inOrder.find? (brokenBy image)

/-- The error that reports a rule, with the numbers of the image that break it. -/
inductive Reports (image : List UInt8) : Rule → SetupError → Prop
  | header : Reports image header (.truncatedHeader image.length 16)
  | magic {found : UInt32} (hfound : found.toNat = number image 0) :
      Reports image magic (.badMagic found 0x4E494253)
  | segment : Reports image segment (.missingIoSegment (image.length - 16) 256)
  | room {memorySize : UInt32} (hsize : memorySize.toNat = number image 12) :
      Reports image room (.imageTooLarge (image.length - 16) memorySize)
  | stackAbove {stackStart programEnd : UInt32} (hstart : stackStart.toNat = number image 8)
      (hend : programEnd.toNat = image.length - 16) :
      Reports image stackAbove (.stackOverlapsProgram stackStart programEnd)
  | limit {requested : UInt32} (hsize : requested.toNat = number image 12) :
      Reports image limit (.memoryTooLarge requested 0x01000000)
  | stackInside {stackStart memorySize : UInt32} (hstart : stackStart.toNat = number image 8)
      (hsize : memorySize.toNat = number image 12) :
      Reports image stackInside (.stackOutsideMemory stackStart memorySize)

theorem Reports.unique {image : List UInt8} {r : Rule} {e e' : SetupError}
    (h : r.Reports image e) (h' : r.Reports image e') : e = e' := by
  have hword : ∀ {w w' : UInt32} {n : Nat}, w.toNat = n → w'.toNat = n → w = w' :=
    fun hw hw' => UInt32.toNat_inj.mp (hw.trans hw'.symm)
  cases h with
  | header => cases h'; rfl
  | magic hfound =>
      cases h' with
      | magic hfound' => rw [hword hfound hfound']
  | segment => cases h'; rfl
  | room hsize =>
      cases h' with
      | room hsize' => rw [hword hsize hsize']
  | stackAbove hstart hend =>
      cases h' with
      | stackAbove hstart' hend' => rw [hword hstart hstart', hword hend hend']
  | limit hsize =>
      cases h' with
      | limit hsize' => rw [hword hsize hsize']
  | stackInside hstart hsize =>
      cases h' with
      | stackInside hstart' hsize' => rw [hword hstart hstart', hword hsize hsize']

end Rule

end Image

/-! ## The two places -/

namespace Machine

variable {h : Header} {program : List UInt8} {l : Layout}

theorem imageLayout_of_short (hio : program.length < 256) :
    imageLayout h program = .error (.missingIoSegment program.length 256) :=
  if_pos hio

theorem imageLayout_of_large (hio : 256 ≤ program.length)
    (hlarge : h.allocSize.toNat < program.length) :
    imageLayout h program = .error (.imageTooLarge program.length h.allocSize) :=
  (if_neg (Nat.not_lt_of_le hio)).trans (if_pos hlarge)

theorem imageLayout_of_overlap (hio : 256 ≤ program.length)
    (hfit : program.length ≤ h.allocSize.toNat)
    (hlow : h.stackPointer.toNat < program.length) :
    imageLayout h program =
      .error (.stackOverlapsProgram h.stackPointer (UInt32.ofNat program.length)) := by
  have hlt : program.length < Address.space :=
    Nat.lt_of_le_of_lt hfit h.allocSize.toNat_lt
  have hlow' : h.stackPointer < UInt32.ofNat program.length := by
    rw [UInt32.lt_iff_toNat_lt, Address.toNat_ofNat_of_lt hlt]
    exact hlow
  exact (if_neg (Nat.not_lt_of_le hio)).trans
    ((if_neg (Nat.not_lt_of_le hfit)).trans (if_pos hlow'))

/-- The loader lets a layout through only if it renders a program that covers the
segment and fits in memory. -/
theorem imageLayout_eq_ok (hl : imageLayout h program = .ok l) :
    256 ≤ program.length ∧ program.length ≤ h.allocSize.toNat ∧ l.Renders h program := by
  by_cases hgood : 256 ≤ program.length ∧ program.length ≤ h.allocSize.toNat ∧
      program.length ≤ h.stackPointer.toNat
  · obtain ⟨hio, hfit, hstack⟩ := hgood
    rw [imageLayout_eq hio hfit hstack] at hl
    cases hl
    exact ⟨hio, hfit, programLayout_renders hfit hstack⟩
  · obtain ⟨e, he⟩ := imageLayout_error hgood
    rw [he] at hl
    cases hl

end Machine

namespace Layout.Renders

variable {l : Layout} {h : Header} {program : List UInt8}

theorem validate_of_large (hl : l.Renders h program) (hlarge : 2 ^ 24 < h.allocSize.toNat) :
    l.validate = .error (.memoryTooLarge h.allocSize maxMemorySize) := by
  have hmax : maxMemorySize < h.allocSize := UInt32.lt_iff_toNat_lt.mpr hlarge
  rw [validate, hl.memorySize_eq, if_pos hmax]

/-- The tests that the loader has made already are passed again. -/
theorem validate_eq (hl : l.Renders h program) (hio : 256 ≤ program.length)
    (hfit : program.length ≤ h.allocSize.toNat) (hsize : h.allocSize.toNat ≤ 2 ^ 24) :
    l.validate = if h.allocSize < h.stackPointer then
      .error (.stackOutsideMemory h.stackPointer h.allocSize) else .ok () := by
  have hlen := hl.programSize_eq
  have hmax : ¬ maxMemorySize < h.allocSize := by
    rw [UInt32.lt_iff_toNat_lt]
    exact Nat.not_lt_of_le hsize
  have hsegment : ¬ l.programSize < ioSegmentSize := by
    have hio' : ioSegmentSize.toNat = 256 := rfl
    rw [UInt32.lt_iff_toNat_lt]
    omega
  have hroom : ¬ h.allocSize < l.programSize := by
    rw [UInt32.lt_iff_toNat_lt]
    omega
  rw [validate, hl.memorySize_eq, hl.stackStart_eq, if_neg hmax, if_neg hsegment,
    if_neg hroom]

theorem validate_error (hl : l.Renders h program) (hio : 256 ≤ program.length)
    (hfit : program.length ≤ h.allocSize.toNat) {e : SetupError}
    (he : l.validate = .error e) :
    e = .memoryTooLarge h.allocSize maxMemorySize ∨
      e = .stackOutsideMemory h.stackPointer h.allocSize := by
  rcases Nat.lt_or_ge (2 ^ 24) h.allocSize.toNat with hlarge | hsize
  · rw [hl.validate_of_large hlarge] at he
    cases he
    exact .inl rfl
  · rw [hl.validate_eq hio hfit hsize] at he
    split at he
    · cases he
      exact .inr rfl
    · cases he

end Layout.Renders

/-! ## The whole image -/

namespace Image

open Rule (firstBroken? inOrder brokenBy)

variable {image : List UInt8}

/-- Past the header, each rule is found broken where the image is first judged by it. -/
theorem boot_first_of_magic (hlen : ¬ image.length < 16) (hmagic : number image 0 = 0x4E494253) :
    (firstBroken? image = none ∧ ∃ m, Machine.boot image = .ok (.ok m)) ∨
      ∃ r e, firstBroken? image = some r ∧ r.Reports image e ∧
        Machine.boot image = .ok (.error e) := by
  have hlong : 16 ≤ image.length := Nat.le_of_not_lt hlen
  have hword : ∀ i, i < 4 → (Header.wordAt image i).toNat = number image (4 * i) :=
    fun i hi => toNat_wordAt (by omega)
  have hstack : (header image).stackPointer.toNat = number image 8 := hword 2 (by decide)
  have hsize : (header image).allocSize.toNat = number image 12 := hword 3 (by decide)
  have hprogram : (image.drop 16).length = image.length - 16 := List.length_drop
  have hproper : (header image).hasProperMagic = true :=
    beq_iff_eq.mpr (UInt32.toNat_inj.mp ((hword 0 (by decide)).trans hmagic))
  have hrules : firstBroken? image =
      [Rule.segment, .room, .stackAbove, .limit, .stackInside].find? (brokenBy image) := by
    simp [firstBroken?, inOrder, brokenBy, hlen, hmagic]
  rw [boot_eq hlong hproper, hrules]
  by_cases hio : image.length - 16 < 256
  · have hrun := Machine.imageLayout_of_short (h := header image) (hprogram ▸ hio)
    rw [hprogram] at hrun
    exact .inr ⟨.segment, _, by simp [brokenBy, hio], .segment,
      Machine.ofProgram_of_layout_error hrun⟩
  have hcovers : 256 ≤ (image.drop 16).length := by omega
  by_cases hroom : number image 12 < image.length - 16
  · have hrun := Machine.imageLayout_of_large (h := header image) hcovers (by omega)
    rw [hprogram] at hrun
    exact .inr ⟨.room, _, by simp [brokenBy, hio, hroom], .room hsize,
      Machine.ofProgram_of_layout_error hrun⟩
  have hfit : (image.drop 16).length ≤ (header image).allocSize.toNat := by omega
  by_cases habove : number image 8 < image.length - 16
  · have hend : (UInt32.ofNat (image.drop 16).length).toNat = image.length - 16 := by
      rw [← hprogram]
      exact Address.toNat_ofNat_of_lt (Nat.lt_of_le_of_lt hfit (header image).allocSize.toNat_lt)
    exact .inr ⟨.stackAbove, _, by simp [brokenBy, hio, hroom, habove],
      .stackAbove hstack hend,
      Machine.ofProgram_of_layout_error (Machine.imageLayout_of_overlap hcovers hfit (by omega))⟩
  -- The loader has nothing against the image, and its layout is judged next.
  have hover : (image.drop 16).length ≤ (header image).stackPointer.toNat := by omega
  have hlayout := Machine.imageLayout_eq hcovers hfit hover
  have hrenders := Machine.programLayout_renders hfit hover
  by_cases hlimit : 0x01000000 < number image 12
  · exact .inr ⟨.limit, _, by simp [brokenBy, hio, hroom, habove, hlimit], .limit hsize,
      Machine.ofProgram_of_refused hlayout
        (Machine.ofLayout_of_error (hrenders.validate_of_large (by omega)))⟩
  by_cases hinside : number image 12 < number image 8
  · have hrun := hrenders.validate_eq hcovers hfit (by omega)
    rw [if_pos (UInt32.lt_iff_toNat_lt.mpr (by omega))] at hrun
    exact .inr ⟨.stackInside, _, by simp [brokenBy, hio, hroom, habove, hlimit, hinside],
      .stackInside hstack hsize,
      Machine.ofProgram_of_refused hlayout (Machine.ofLayout_of_error hrun)⟩
  have hadmits : (header image).Admits (image.drop 16) :=
    ⟨hcovers, hover, by omega, by omega⟩
  exact .inl ⟨by simp [brokenBy, hio, hroom, habove, hlimit, hinside], _,
    Machine.ofProgram_of_admits hadmits⟩

theorem boot_first (image : List UInt8) :
    (firstBroken? image = none ∧ ∃ m, Machine.boot image = .ok (.ok m)) ∨
      ∃ r e, firstBroken? image = some r ∧ r.Reports image e ∧
        Machine.boot image = .ok (.error e) := by
  by_cases hlen : image.length < 16
  · exact .inr ⟨.header, _, by simp [firstBroken?, inOrder, brokenBy, hlen], .header,
      boot_of_short hlen⟩
  by_cases hmagic : number image 0 = 0x4E494253
  · exact boot_first_of_magic hlen hmagic
  · have hword : (header image).magic.toNat = number image 0 :=
      toNat_wordAt (i := 0) (by omega)
    have hbad : ¬ (header image).hasProperMagic = true := fun heq =>
      hmagic (hword ▸ congrArg UInt32.toNat (beq_iff_eq.mp heq))
    exact .inr ⟨.magic, _, by simp [firstBroken?, inOrder, brokenBy, hlen, hmagic],
      .magic hword, boot_of_bad_magic (Nat.le_of_not_lt hlen) hbad⟩

/-- An image is refused exactly by the first rule that it breaks, with the numbers that
break it. Whatever layout the loader lets through says in words what the header and the
program say in numbers, its start of the stack does not saturate, and it never fails
the two tests that the loader has made. -/
theorem boot_reports_first_broken (image : List UInt8) :
    (∀ e, Machine.boot image = .ok (.error e) ↔
      ∃ r, firstBroken? image = some r ∧ r.Reports image e) ∧
    ∀ (h : Header) (program : List UInt8) (l : Layout),
      Machine.imageLayout h program = .ok l →
        l.programSize.toNat = program.length ∧
        program.length + l.stackSize.toNat = h.stackPointer.toNat ∧
        l.stackStart.toNat = l.programSize.toNat + l.stackSize.toNat ∧
        (∀ length needed, l.validate ≠ .error (.missingIoSegment length needed)) ∧
        ∀ length size, l.validate ≠ .error (.imageTooLarge length size) := by
  refine ⟨fun e => ⟨fun hboot => ?_, ?_⟩, fun h program l hl => ?_⟩
  · rcases boot_first image with ⟨-, m, hm⟩ | ⟨r, e', hfirst, hreports, he⟩
    · cases hm.symm.trans hboot
    · cases he.symm.trans hboot
      exact ⟨r, hfirst, hreports⟩
  · rintro ⟨r, hfirst, hreports⟩
    rcases boot_first image with ⟨hnone, -⟩ | ⟨r', e', hfirst', hreports', he⟩
    · cases hnone.symm.trans hfirst
    · cases hfirst'.symm.trans hfirst
      rw [he, hreports'.unique hreports]
  · obtain ⟨hio, hfit, hrenders⟩ := Machine.imageLayout_eq_ok hl
    have hlen := hrenders.programSize_eq
    have hsum := hrenders.stackSize_eq
    refine ⟨hlen, hsum, ?_, fun length needed he => ?_, fun length size he => ?_⟩
    · rw [hrenders.stackStart_eq]
      omega
    · rcases hrenders.validate_error hio hfit he with heq | heq <;> cases heq
    · rcases hrenders.validate_error hio hfit he with heq | heq <;> cases heq

/-- A stack pointer at the last address, far outside a memory that is too large as well
in one image and small in the other. -/
theorem boot_reports_first_broken_last_address :
    let image (size : UInt32) :=
      (Header.make 0 0xFFFFFFFF size).withProgram (List.replicate 256 0)
    Machine.boot (image 0x01000001) = .ok (.error (.memoryTooLarge 0x01000001 0x01000000)) ∧
      Machine.boot (image 300) = .ok (.error (.stackOutsideMemory 0xFFFFFFFF 300)) ∧
      ∃ l, Machine.imageLayout (Header.make 0 0xFFFFFFFF 300) (List.replicate 256 0) = .ok l ∧
        256 + l.stackSize.toNat = 0xFFFFFFFF ∧
        l.stackStart.toNat = l.programSize.toNat + l.stackSize.toNat := by
  intro image
  have hlayout : Machine.imageLayout (Header.make 0 0xFFFFFFFF 300) (List.replicate 256 0) =
      .ok (Machine.programLayout (Header.make 0 0xFFFFFFFF 300) (List.replicate 256 0)) :=
    Machine.imageLayout_eq (by decide +kernel) (by decide +kernel) (by decide +kernel)
  refine ⟨?_, ?_, _, hlayout, ?_⟩
  · exact ((boot_reports_first_broken (image 0x01000001)).1 _).mpr
      ⟨.limit, by decide +kernel, .limit (by decide +kernel)⟩
  · exact ((boot_reports_first_broken (image 300)).1 _).mpr
      ⟨.stackInside, by decide +kernel, .stackInside (by decide +kernel) (by decide +kernel)⟩
  · obtain ⟨-, hsum, hstart, -⟩ := (boot_reports_first_broken (image 300)).2 _ _ _ hlayout
    rw [List.length_replicate] at hsum
    exact ⟨hsum, hstart⟩

end Image

end FlatMachine
