import FlatMachine.Proofs.Effects
import FlatMachine.Proofs.GuestHeap

/-!
# From a layout to the first block

The host computes where the heap starts from three sizes. The guest knows nothing of
them: it reads a word that was written to memory byte by byte, and adds to it. Both
sums saturate, and so does the one that decides whether the stack lies in memory.

Nothing of this matters once a layout is accepted. The rules are inequalities between
plain sums, and a sum that a word cannot hold breaks the last of them, since no memory
is that large. A layout that passes is then so small that every later sum is exact,
and the two ways to the start of the heap are one.
-/

namespace FlatMachine

namespace Layout

/-- The rules on a layout in the order in which they are checked: whether it breaks
them, and the error that says so. -/
def rules (l : Layout) : List (Bool × SetupError) :=
  let memory := l.memorySize.toNat
  let program := l.programSize.toNat
  let stack := program + l.stackSize.toNat
  [(2 ^ 24 < memory, .memoryTooLarge l.memorySize 0x01000000),
    (program < 256, .missingIoSegment program 256),
    (memory < program, .imageTooLarge program l.memorySize),
    (memory < stack, .stackOutsideMemory (UInt32.ofNat (min 0xFFFFFFFF stack)) l.memorySize)]

/-- The error that reports the first rule broken. -/
def firstError? (l : Layout) : Option SetupError :=
  (l.rules.find? (·.1)).map (·.2)

/-- The byte at a position of the memory that a layout describes. -/
def byteAt (l : Layout) (i : Nat) : UInt8 :=
  if 4 ≤ i ∧ i < 8 then UInt8.ofNat (l.memorySize.toNat / 256 ^ (i - 4))
  else if 8 ≤ i ∧ i < 12 then
    UInt8.ofNat ((l.programSize.toNat + l.stackSize.toNat) / 256 ^ (i - 8))
  else 0

/-- The machine that a layout describes, about to start. -/
structure Describes (l : Layout) (m : Machine) : Prop where
  running : m.status = .running
  console_eq : m.console = #[]
  dropped_eq : m.droppedStores = 0
  entry_eq : m.entryPoint = 0
  size_eq : m.memory.size = l.memorySize.toNat
  byte_eq : ∀ i, i < l.memorySize.toNat → m.memory.bytes[i]? = some (l.byteAt i)

variable {l : Layout}

theorem stackStart_eq (l : Layout) : l.stackStart =
    UInt32.ofNat (min 0xFFFFFFFF (l.programSize.toNat + l.stackSize.toNat)) :=
  Address.ofNat_toNat_eq l.toNat_stackStart

/-- Saturation does not hide a stack that lies outside an admissible memory. -/
theorem memorySize_lt_stackStart_iff (hsize : ¬ 0x01000000 < l.memorySize.toNat) :
    l.memorySize < l.stackStart ↔
      l.memorySize.toNat < l.programSize.toNat + l.stackSize.toNat := by
  have hspace : Address.space = 2 ^ 32 := rfl
  rw [UInt32.lt_iff_toNat_lt, l.toNat_stackStart]
  omega

theorem validate_eq_error_iff {e : SetupError} :
    l.validate = .error e ↔ l.firstError? = some e := by
  have hlimit : maxMemorySize < l.memorySize ↔ 0x01000000 < l.memorySize.toNat :=
    UInt32.lt_iff_toNat_lt
  have hsegment : l.programSize < ioSegmentSize ↔ l.programSize.toNat < 256 :=
    UInt32.lt_iff_toNat_lt
  have hroom : l.memorySize < l.programSize ↔ l.memorySize.toNat < l.programSize.toNat :=
    UInt32.lt_iff_toNat_lt
  by_cases h₁ : 0x01000000 < l.memorySize.toNat
  · have hrun : l.validate = .error (.memoryTooLarge l.memorySize 0x01000000) :=
      if_pos (hlimit.mpr h₁)
    simp [hrun, firstError?, rules, h₁]
  have hpast₁ := mt hlimit.mp h₁
  by_cases h₂ : l.programSize.toNat < 256
  · have hrun : l.validate = .error (.missingIoSegment l.programSize.toNat 256) := by
      rw [validate, if_neg hpast₁, if_pos (hsegment.mpr h₂)]
      rfl
    simp [hrun, firstError?, rules, h₁, h₂]
  have hpast₂ := mt hsegment.mp h₂
  by_cases h₃ : l.memorySize.toNat < l.programSize.toNat
  · have hrun : l.validate = .error (.imageTooLarge l.programSize.toNat l.memorySize) := by
      rw [validate, if_neg hpast₁, if_neg hpast₂, if_pos (hroom.mpr h₃)]
    simp [hrun, firstError?, rules, h₁, h₂, h₃]
  have hpast₃ := mt hroom.mp h₃
  have hinside := memorySize_lt_stackStart_iff h₁
  by_cases h₄ : l.memorySize.toNat < l.programSize.toNat + l.stackSize.toNat
  · have hrun : l.validate = .error (.stackOutsideMemory l.stackStart l.memorySize) := by
      rw [validate, if_neg hpast₁, if_neg hpast₂, if_neg hpast₃, if_pos (hinside.mpr h₄)]
    rw [l.stackStart_eq] at hrun
    simp [hrun, firstError?, rules, h₁, h₂, h₃, h₄]
  · have hrun : l.validate = .ok () := by
      rw [validate, if_neg hpast₁, if_neg hpast₂, if_neg hpast₃, if_neg (mt hinside.mp h₄)]
    simp [hrun, firstError?, rules, h₁, h₂, h₃, h₄]

theorem Valid.toNat_heapStart (h : l.Valid) :
    l.heapStart.toNat = l.programSize.toNat + l.stackSize.toNat + 4 := by
  have hstack := h.stack_le
  have hsize := h.size_le
  have hspace : Address.space = 2 ^ 32 := rfl
  have hfour : (UInt32.ofNat Word.size).toNat = 4 := rfl
  rw [heapStart, Address.toNat_saturatingAdd, h.toNat_stackStart, hfour]
  omega

end Layout

namespace Machine

variable {l : Layout}

theorem laidOut_describes (h : l.Valid) : l.Describes (laidOut l) := by
  refine ⟨rfl, rfl, rfl, rfl, size_laidOut, fun i hi => ?_⟩
  unfold Layout.byteAt
  split
  · next hin =>
      have hword := laidOut_memEnd h (k := i - 4) (by omega)
      rwa [Nat.add_sub_cancel' hin.1, Word.toBytes_getElem? (by omega)] at hword
  · split
    · next hin =>
        have hword := laidOut_stackStart h (k := i - 8) (by omega)
        rwa [Nat.add_sub_cancel' hin.1, Word.toBytes_getElem? (by omega),
          h.toNat_stackStart] at hword
    · exact laidOut_zero (by omega) hi

theorem ofLayout_answers (l : Layout) : ∃ answer, ofLayout l = .ok answer := by
  by_cases h : l.Valid
  · exact ⟨_, ofLayout_of_valid h⟩
  · obtain ⟨e, he⟩ := ofLayout_of_not_valid h
    exact ⟨_, he⟩

theorem ofLayout_eq_error_iff {e : SetupError} :
    ofLayout l = .ok (.error e) ↔ l.firstError? = some e := by
  rw [← Layout.validate_eq_error_iff]
  refine ⟨fun he => ?_, ofLayout_of_error⟩
  cases hv : l.validate with
  | error e' =>
      rw [ofLayout_of_error hv, Except.ok.injEq, Except.error.injEq] at he
      rw [he]
  | ok u =>
      rw [ofLayout_of_valid (l.validate_eq_ok_iff.mp hv), Except.ok.injEq] at he
      cases he

end Machine

namespace Guest

theorem heapStart_shown {g : Guest Machine} {stackStart memEnd : Address}
    (hm : g.bus.Shows stackStart memEnd) :
    heapStart g = .ok (stackStart.saturatingAdd 4) g :=
  Action.bind_ok (loadWord_run hm.loadWord_stackStart)

namespace Sits

variable {g : Guest Machine} {stackStart memEnd : Address} {c : Nat}

theorem reserve_granted_iff (hg : g.Sits stackStart memEnd c) (size : UInt32) :
    (reserve size).outcome g = .ok (some (UInt32.ofNat c)) ↔ c < memEnd.toNat := by
  have hrun := hg.reserve_run size
  by_cases hlt : c < memEnd.toNat
  · rw [if_pos hlt] at hrun
    simp [Action.outcome_ok hrun, hlt]
  · rw [if_neg hlt] at hrun
    simp [Action.outcome_ok hrun, hlt]

theorem allocate_granted_iff (hg : g.Sits stackStart memEnd c) (size : UInt32) :
    (allocate size).outcome g = .ok (.ok (UInt32.ofNat c)) ↔ c < memEnd.toNat := by
  by_cases hlt : c < memEnd.toNat
  · simp [Action.outcome_ok (hg.allocate_granted size hlt), hlt]
  · simp [Action.outcome_ok (hg.allocate_refused size (Nat.le_of_not_lt hlt)), hlt]

end Sits

end Guest

/-- Setting up a machine never faults, whatever the three sizes. It gives a machine
exactly if the program covers the input and output segment, the program and the stack
fit in memory, and memory is not too large, where the sums are plain ones. If not, the
error reports the first rule broken. The machine has zeros in memory but for the two
registers, its guest finds the heap where the layout has it, with nothing lost to
saturation, and there the first block starts, whenever that lies in memory. -/
theorem Machine.ofLayout_lays_out (l : Layout) :
    let memory := l.memorySize.toNat
    let program := l.programSize.toNat
    let stack := program + l.stackSize.toNat
    (∃ answer, ofLayout l = .ok answer) ∧
    ((∃ m, ofLayout l = .ok (.ok m)) ↔ 256 ≤ program ∧ stack ≤ memory ∧ memory ≤ 2 ^ 24) ∧
    (∀ e, ofLayout l = .ok (.error e) ↔ l.firstError? = some e) ∧
    (∀ m, ofLayout l = .ok (.ok m) →
      l.Describes m ∧ l.heapStart.toNat = stack + 4 ∧
      (∀ heap, Guest.heapStart ⟨m, heap⟩ = .ok l.heapStart (⟨m, heap⟩ : Guest Machine)) ∧
      ∀ size,
        ((Guest.reserve size).outcome (⟨m, {}⟩ : Guest Machine) = .ok (some l.heapStart) ↔
          stack + 4 < memory) ∧
        ((Guest.allocate size).outcome (⟨m, {}⟩ : Guest Machine) = .ok (.ok l.heapStart) ↔
          stack + 4 < memory)) := by
  intro memory program stack
  refine ⟨ofLayout_answers l, ?_, fun e => ofLayout_eq_error_iff, fun m hm => ?_⟩
  · constructor
    · rintro ⟨m, hm⟩
      obtain ⟨⟨hio, hstack, hsize⟩, -⟩ := ofLayout_eq_ok_iff.mp hm
      exact ⟨hio, hstack, hsize⟩
    · rintro ⟨hio, hstack, hsize⟩
      exact ⟨_, ofLayout_of_valid ⟨hio, hstack, hsize⟩⟩
  · obtain ⟨hv, rfl⟩ := ofLayout_eq_ok_iff.mp hm
    have hready := laidOut_ready hv
    have hstart : l.heapStart = UInt32.ofNat (stack + 4) :=
      Address.ofNat_toNat_eq hv.toNat_heapStart
    have hsits := Guest.Sits.fresh hready
    rw [hv.toNat_stackStart] at hsits
    refine ⟨laidOut_describes hv, hv.toNat_heapStart,
      fun heap => Guest.heapStart_shown hready.shows, fun size => ?_⟩
    rw [hstart]
    exact ⟨hsits.reserve_granted_iff size, hsits.allocate_granted_iff size⟩

/-- One byte of heap, with bytes of the registers that carry over, and a layout whose
sum of sizes no word can hold. -/
theorem Machine.ofLayout_lays_out_last_byte :
    let l : Layout := ⟨264, 256, 3⟩
    (∃ m, ofLayout l = .ok (.ok m) ∧ m.memory.bytes[5]? = some 1 ∧
      m.memory.bytes[8]? = some 3 ∧ l.heapStart.toNat = 263 ∧
      (Guest.allocate 0xFFFFFFFF).outcome (⟨m, {}⟩ : Guest Machine) =
        .ok (.ok l.heapStart)) ∧
      ofLayout ⟨256, 256, 0xFFFFFFFF⟩ =
        .ok (.error (.stackOutsideMemory 0xFFFFFFFF 256)) := by
  intro l
  obtain ⟨-, haccepted, -, hm⟩ := ofLayout_lays_out l
  obtain ⟨m, hof⟩ := haccepted.mpr ⟨by decide, by decide, by decide⟩
  obtain ⟨hdescribes, hstart, -, hblocks⟩ := hm m hof
  have hsizeByte := hdescribes.byte_eq 5 (by decide)
  have hstackByte := hdescribes.byte_eq 8 (by decide)
  rw [show l.byteAt 5 = 1 by decide] at hsizeByte
  rw [show l.byteAt 8 = 3 by decide] at hstackByte
  obtain ⟨-, -, hrefused, -⟩ := ofLayout_lays_out ⟨256, 256, 0xFFFFFFFF⟩
  exact ⟨⟨m, hof, hsizeByte, hstackByte, hstart, (hblocks 0xFFFFFFFF).2.mpr (by decide)⟩,
    (hrefused _).mpr (by decide)⟩

end FlatMachine
