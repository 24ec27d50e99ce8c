import FlatMachine.Machine.State
import FlatMachine.Proofs.Actions
import FlatMachine.Proofs.Storage

/-!
# A layout that is accepted becomes exactly one machine

The sums in a layout saturate, so that a layout that does not fit can be written
down and then refused. `Layout.Valid` is the same test without saturation, in
`Nat`, and the two agree: a sum that saturates is far past the largest memory.

An accepted layout covers the input and output segment, so both register stores
land in memory and setting up a machine never faults. What is left is a memory of
zeros with two words in it, described position by position.
-/

namespace FlatMachine

/-- The layouts that are accepted. -/
structure Layout.Valid (l : Layout) : Prop where
  io_le : 256 ≤ l.programSize.toNat
  stack_le : l.programSize.toNat + l.stackSize.toNat ≤ l.memorySize.toNat
  size_le : l.memorySize.toNat ≤ 2 ^ 24

namespace Layout

theorem toNat_stackStart (l : Layout) :
    l.stackStart.toNat =
      min (Address.space - 1) (l.programSize.toNat + l.stackSize.toNat) :=
  Address.toNat_saturatingAdd _ _

theorem Valid.size_ge {l : Layout} (h : l.Valid) : 256 ≤ l.memorySize.toNat := by
  have hio := h.io_le
  have hstack := h.stack_le
  omega

theorem Valid.toNat_stackStart {l : Layout} (h : l.Valid) :
    l.stackStart.toNat = l.programSize.toNat + l.stackSize.toNat := by
  have hstack := h.stack_le
  have hsize := h.size_le
  have hspace : Address.space = 2 ^ 32 := rfl
  rw [l.toNat_stackStart]
  omega

theorem validate_eq_ok_iff (l : Layout) : l.validate = .ok () ↔ l.Valid := by
  have hmax : maxMemorySize.toNat = 2 ^ 24 := rfl
  have hio : ioSegmentSize.toNat = 256 := rfl
  have hspace : Address.space = 2 ^ 32 := rfl
  have hstart := l.toNat_stackStart
  unfold validate
  simp only [UInt32.lt_iff_toNat_lt]
  constructor
  · intro h
    split at h
    · cases h
    · split at h
      · cases h
      · split at h
        · cases h
        · split at h
          · cases h
          · exact ⟨by omega, by omega, by omega⟩
  · intro h
    have h₁ := h.io_le
    have h₂ := h.stack_le
    have h₃ := h.size_le
    rw [if_neg (by omega), if_neg (by omega), if_neg (by omega),
      if_neg (by omega)]

end Layout

/-- A machine that runs, and whose registers place the stack above the input and
output segment and the end of memory where memory ends. -/
structure Machine.Ready (m : Machine) (stackStart memEnd : Address) : Prop where
  running : m.status = .running
  stackStart_eq : m.stackStart = .ok stackStart
  memEnd_eq : m.memEnd = .ok memEnd
  size_eq : m.memory.size = memEnd.toNat
  io_le : 256 ≤ stackStart.toNat
  stack_le : stackStart.toNat ≤ memEnd.toNat
  size_le : memEnd.toNat ≤ 2 ^ 24

namespace Machine

/-- The machine that a layout describes. -/
def laidOut (l : Layout) : Machine :=
  { memory :=
      ((Memory.zeros l.memorySize.toNat).overwrite Register.memEnd.address
        (Word.toBytes l.memorySize)).overwrite Register.stackStart.address
        (Word.toBytes l.stackStart) }

section

variable {l : Layout}

@[simp] theorem size_laidOut : (laidOut l).memory.size = l.memorySize.toNat := by
  rw [laidOut, Memory.size_overwrite, Memory.size_overwrite, Memory.size_zeros]

theorem laidOut_memEnd (h : l.Valid) {k : Nat} (hk : k < 4) :
    (laidOut l).memory.bytes[4 + k]? = (Word.toBytes l.memorySize)[k]? := by
  have hsize := h.size_ge
  have hwindow : ((Memory.zeros l.memorySize.toNat).overwrite
      Register.memEnd.address (Word.toBytes l.memorySize)).bytes[4 + k]? =
      (Word.toBytes l.memorySize)[k]? :=
    Memory.overwrite_window (a := Register.memEnd.address)
      (by rw [Word.length_toBytes, Memory.size_zeros]
          show 4 + 4 ≤ l.memorySize.toNat
          omega)
      (by rw [Word.length_toBytes]; exact hk)
  rw [← hwindow]
  exact Memory.overwrite_frame (.inl (show 4 + k < 8 by omega))

theorem laidOut_stackStart (h : l.Valid) {k : Nat} (hk : k < 4) :
    (laidOut l).memory.bytes[8 + k]? = (Word.toBytes l.stackStart)[k]? := by
  have hsize := h.size_ge
  exact Memory.overwrite_window (a := Register.stackStart.address)
    (by rw [Word.length_toBytes, Memory.size_overwrite, Memory.size_zeros]
        show 8 + 4 ≤ l.memorySize.toNat
        omega)
    (by rw [Word.length_toBytes]; exact hk)

theorem laidOut_zero {i : Nat} (hout : i < 4 ∨ 12 ≤ i)
    (hi : i < l.memorySize.toNat) : (laidOut l).memory.bytes[i]? = some 0 := by
  have hlen := Word.length_toBytes
  rw [laidOut, Memory.overwrite_frame, Memory.overwrite_frame,
    Memory.zeros_getElem? hi]
  · rw [hlen]
    show i < 4 ∨ 4 + 4 ≤ i
    omega
  · rw [hlen]
    show i < 8 ∨ 8 + 4 ≤ i
    omega

theorem setRegisters_ok (h : l.Valid) :
    setRegisters l (.zeros l.memorySize.toNat) = .ok () (laidOut l).memory := by
  have hsize := h.size_ge
  have hmemEnd : Memory.storeWord Register.memEnd.address l.memorySize
      (.zeros l.memorySize.toNat) = .ok () _ :=
    if_pos (by
      show 4 + 4 ≤ (Memory.zeros l.memorySize.toNat).size
      rw [Memory.size_zeros]
      omega)
  rw [setRegisters, Action.bind_ok hmemEnd]
  exact if_pos (by
    show 8 + 4 ≤ (Memory.overwrite _ _ _).size
    rw [Memory.size_overwrite, Memory.size_zeros]
    omega)

theorem ofLayout_of_valid (h : l.Valid) : ofLayout l = .ok (.ok (laidOut l)) := by
  rw [ofLayout, (l.validate_eq_ok_iff).mpr h]
  simp only [setRegisters_ok h]
  rfl

theorem ofLayout_of_error {e : SetupError} (h : l.validate = .error e) :
    ofLayout l = .ok (.error e) := by
  rw [ofLayout, h]

theorem ofLayout_of_not_valid (h : ¬ l.Valid) :
    ∃ e, ofLayout l = .ok (.error e) := by
  cases hv : l.validate with
  | error e => exact ⟨e, ofLayout_of_error hv⟩
  | ok u => exact absurd ((l.validate_eq_ok_iff).mp hv) h

theorem ofLayout_eq_ok_iff {m : Machine} :
    ofLayout l = .ok (.ok m) ↔ l.Valid ∧ m = laidOut l := by
  constructor
  · intro h
    by_cases hv : l.Valid
    · rw [ofLayout_of_valid hv, Except.ok.injEq, Except.ok.injEq] at h
      exact ⟨hv, h.symm⟩
    · obtain ⟨e, he⟩ := ofLayout_of_not_valid hv
      rw [he, Except.ok.injEq] at h
      cases h
  · rintro ⟨hv, rfl⟩
    exact ofLayout_of_valid hv

theorem laidOut_ready (h : l.Valid) :
    (laidOut l).Ready l.stackStart l.memorySize := by
  have hio := h.io_le
  have hstack := h.stack_le
  have hsize := h.size_ge
  have hstart := h.toNat_stackStart
  refine ⟨rfl, ?_, ?_, size_laidOut, by omega, by omega, h.size_le⟩
  · refine Memory.loadWord_eq ?_ fun k hk => laidOut_stackStart h hk
    rw [size_laidOut]
    show 8 + 4 ≤ l.memorySize.toNat
    omega
  · refine Memory.loadWord_eq ?_ fun k hk => laidOut_memEnd h hk
    rw [size_laidOut]
    show 4 + 4 ≤ l.memorySize.toNat
    omega

end

end Machine

end FlatMachine
