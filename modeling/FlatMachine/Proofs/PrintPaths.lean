import FlatMachine.Proofs.MachineEffects
import FlatMachine.Proofs.Printing

/-!
# Four ways to read one string

The host reads a string whole, and it copies one byte by byte out of a snapshot.
The guest prints a string from memory, and it prints one that it holds. All four
stop at the same byte. Reading whole is `stringFrom`, so what is known about the
two walks from there carries over, and only two things are left to see.

A string without a zero behind it runs to the end of memory. The host then reads
a zero that is not there and is done, while the guest faults. It faults at the
first address past memory, or at its start if that is past memory already, and
by then the whole string is on the console.

Neither walk is cut short by its budget. The copy gives the same answer on every
budget that exceeds the string, and the guest never gets around the address space
because memory ends before it does.
-/

namespace FlatMachine

namespace Memory

variable {m : Memory} {i n : Nat}

theorem stringEnd_eq (h : m.size ≤ i + n) :
    m.stringEnd n i = i + (m.stringFrom i).length := by
  induction n generalizing i with
  | zero =>
      rw [Nat.add_zero] at h
      simp [stringEnd, stringFrom_outside h]
  | succ n ih =>
      rw [stringEnd]
      cases hbyte : m.bytes[i]? with
      | none =>
          have hout : m.size ≤ i := Array.getElem?_eq_none_iff.mp hbyte
          simp [stringFrom_outside hout]
      | some b =>
          by_cases hz : b = 0
          · subst hz
            simp [stringFrom_zero hbyte]
          · simp only [if_neg hz, stringFrom_cons hbyte hz, List.length_cons]
            rw [ih (by omega)]
            omega

/-- A string read whole is what stands before the first zero. -/
theorem string_eq (m : Memory) (a : Address) : m.string a = m.stringFrom a.toNat := by
  have hprefix : m.stringFrom a.toNat <+: m.toList.drop a.toNat := List.takeWhile_prefix _
  rw [string, stringEnd_eq (by omega), extract_eq_take, Nat.add_sub_cancel_left]
  exact (List.prefix_iff_eq_take.mp hprefix).symm

end Memory

namespace Machine

variable {m : Machine} {a : Address}

/-- A string with no zero behind it is printed up to the end of memory. -/
theorem writeStringFrom_outside (n : Nat) (h : m.status = .running)
    (hspace : m.memory.size < Address.space)
    (hn : (m.memory.stringFrom a.toNat).length < n)
    (hend : m.memory.size ≤ a.toNat + (m.memory.stringFrom a.toNat).length) :
    writeStringFrom n a m =
      .error (.loadByte (UInt32.ofNat (max a.toNat m.memory.size)))
        (m.emit (m.memory.stringFrom a.toNat)) := by
  induction n generalizing m a with
  | zero => exact absurd hn (Nat.not_lt_zero _)
  | succ n ih =>
      rw [writeStringFrom]
      cases hbyte : m.memory.bytes[a.toNat]? with
      | none =>
          have hout : m.memory.size ≤ a.toNat := Array.getElem?_eq_none_iff.mp hbyte
          rw [Action.bind_error (load_outside hout), Memory.stringFrom_outside hout,
            Nat.max_eq_left hout, UInt32.ofNat_toNat]
          rfl
      | some b =>
          have hin : a.toNat < m.memory.size := (Array.getElem?_eq_some_iff.mp hbyte).1
          rw [Action.bind_ok (load_eq hbyte)]
          by_cases hz : b = 0
          · -- A zero inside memory ends the string before memory does.
            subst hz
            rw [Memory.stringFrom_zero hbyte] at hend
            exact absurd hend (Nat.not_le_of_lt hin)
          · have hcons := Memory.stringFrom_cons hbyte hz
            rw [hcons, List.length_cons] at hn hend
            have hnext : (a + 1).toNat = a.toNat + 1 :=
              Address.toNat_succ_of_lt (by omega)
            have hrest : (m.emit [b]).memory.stringFrom (a + 1).toNat =
                m.memory.stringFrom (a.toNat + 1) := by
              rw [hnext]
              exact Memory.stringFrom_congr fun j hj => emit_frame m _ (by omega)
            have hmax : max (a.toNat + 1) m.memory.size = max a.toNat m.memory.size := by
              omega
            have hgo := ih (m := m.emit [b]) (a := a + 1) ((emit_status m _).trans h)
              (by simpa using hspace) (by rw [hrest]; omega)
              (by rw [hrest, hnext, size_emit]; omega)
            rw [hrest, hnext, size_emit, hmax] at hgo
            rw [if_neg hz, Action.bind_ok (writeChar_run b h (by omega)), hgo, hcons]
            rfl

theorem printLineAt_outside (h : m.status = .running)
    (hspace : m.memory.size < Address.space)
    (hend : m.memory.size ≤ a.toNat + (m.memory.stringFrom a.toNat).length) :
    printLineAt a m =
      .error (.loadByte (UInt32.ofNat (max a.toNat m.memory.size)))
        (m.emit (m.memory.stringFrom a.toNat)) := by
  have hlen := m.memory.length_stringFrom a.toNat
  rw [printLineAt]
  exact Action.bind_error (writeStringFrom_outside _ h hspace (by omega) hend)

/-- A machine has put some bytes on its console, and the sink is the only byte of
its memory that may have changed. -/
structure Printed (m : Machine) (cs : List UInt8) (m' : Machine) : Prop where
  console : m'.console.toList = m.console.toList ++ cs
  bytes : ∀ i : Nat, i ≠ 0 → m'.memory.bytes[i]? = m.memory.bytes[i]?
  size : m'.memory.size = m.memory.size
  status : m'.status = m.status
  entryPoint : m'.entryPoint = m.entryPoint
  droppedStores : m'.droppedStores = m.droppedStores

theorem printed_emit (m : Machine) (cs : List UInt8) : m.Printed cs (m.emit cs) where
  console := emit_console m cs
  bytes _ hi := emit_frame m cs (Nat.pos_of_ne_zero hi)
  size := size_emit m cs
  status := emit_status m cs
  entryPoint := emit_entryPoint m cs
  droppedStores := emit_dropped m cs

end Machine

namespace PrintPath

/-- The host copies the same string, on any budget that exceeds it. -/
theorem print_snapshot {m : Memory} (hspace : m.size < Address.space) (a : Address)
    (buffer : PrintBuffer) {n : Nat} (hn : (m.string a).length < n) :
    printFrom n a 0 ⟨.ofMemory m, buffer⟩ =
      ((m.string a).length,
        ⟨⟨m.bytes, a + UInt32.ofNat (m.string a).length, 0, (m.string a).length + 1⟩,
          ⟨buffer.bytes ++ (m.string a).toArray⟩⟩) := by
  rw [Memory.string_eq] at hn ⊢
  rw [printFrom_run (m := m) n a 0 (.ofMemory m) buffer rfl hspace hn]
  simp [LookupList.ofMemory]

end PrintPath

namespace Machine

/-- The string at an address, on every machine that runs: the host's copy of it is
complete, whatever the budget. If a zero stands behind it, the guest prints it as
it would print it from its own hands. If none does, the guest prints it too, and
then faults at the first address past memory, or at its own start. -/
theorem print_paths_agree :
    (∀ m : Machine, m.Driven → m.memory.size < Address.space) ∧
    ∀ (m : Machine) (a : Address), m.status = .running →
      m.memory.size < Address.space →
      let cs := m.memory.string a
      (∀ buffer : PrintBuffer,
        let printed := PrintPath.print ⟨.ofMemory m.memory, buffer⟩ a
        printed.1 = cs.length ∧
        printed.2.buffer.toList = buffer.toList ++ cs ∧
        printed.2.list.lookups = cs.length + 1 ∧
        ∀ n, cs.length < n →
          PrintPath.printFrom n a 0 ⟨.ofMemory m.memory, buffer⟩ = printed) ∧
      (a.toNat + cs.length < m.memory.size →
        ∃ m', printLineAt a m = .ok () m' ∧
          (∀ d : List UInt8, d.takeWhile (· ≠ 0) = cs → printLine d m = .ok () m') ∧
          m.Printed (cs ++ [newline]) m') ∧
      (m.memory.size ≤ a.toNat + cs.length →
        ∃ m', printLineAt a m =
            .error (.loadByte (UInt32.ofNat (max a.toNat m.memory.size))) m' ∧
          m.Printed cs m') := by
  have hspace : Address.space = 2 ^ 32 := rfl
  refine ⟨fun m hm => ?_, fun m a hrun hsize => ?_⟩
  · have := hm.size
    omega
  · refine ⟨fun buffer => ?_, ?_, ?_⟩
    · have hlen : (m.memory.string a).length < m.memory.size + 1 := by
        have := m.memory.length_stringFrom a.toNat
        rw [Memory.string_eq]
        omega
      have hprint : PrintPath.print ⟨.ofMemory m.memory, buffer⟩ a = _ :=
        PrintPath.print_snapshot hsize a buffer hlen
      rw [hprint]
      refine ⟨rfl, ?_, rfl, fun n hn => PrintPath.print_snapshot hsize a buffer hn⟩
      simp [PrintBuffer.toList]
    · intro hend
      rw [Memory.string_eq] at hend ⊢
      refine ⟨_, printLineAt_run hrun hsize hend, fun d hd => ?_, printed_emit m _⟩
      rw [printLine_run d hrun (by omega), hd]
    · intro hend
      rw [Memory.string_eq] at hend ⊢
      exact ⟨_, printLineAt_outside hrun hsize hend, printed_emit m _⟩

/-- The string that the end-of-memory register happens to spell, printed both ways,
and a start past the end of memory. -/
theorem print_paths_agree_register :
    let m := laidOut ⟨260, 256, 0⟩
    m.Driven ∧ m.status = .running ∧ m.memory.size < Address.space ∧
      (∃ m', printLineAt 4 m = .ok () m' ∧ printLine [4, 1, 0, 9] m = .ok () m' ∧
        m'.console.toList = [4, 1, newline]) ∧
      ∃ m', printLineAt 300 m = .error (.loadByte 300) m' ∧ m'.console.toList = [] := by
  have hvalid : (⟨260, 256, 0⟩ : Layout).Valid := ⟨by decide, by decide, by decide⟩
  have hdriven : (laidOut ⟨260, 256, 0⟩).Driven :=
    ⟨_, [], .ofLayout (ofLayout_of_valid hvalid), rfl⟩
  have hsize := print_paths_agree.1 _ hdriven
  obtain ⟨-, hzero, -⟩ := print_paths_agree.2 (laidOut ⟨260, 256, 0⟩) 4 rfl hsize
  obtain ⟨-, -, hpast⟩ := print_paths_agree.2 (laidOut ⟨260, 256, 0⟩) 300 rfl hsize
  have hfour : (laidOut ⟨260, 256, 0⟩).memory.string 4 = [4, 1] := by decide +kernel
  have hnone : (laidOut ⟨260, 256, 0⟩).memory.string 300 = [] := by decide +kernel
  rw [hfour] at hzero
  rw [hnone] at hpast
  obtain ⟨m₁, hline, hsame, hprinted⟩ := hzero (by rw [size_laidOut]; decide)
  obtain ⟨m₂, hfault, hprinted'⟩ := hpast (by rw [size_laidOut]; decide)
  refine ⟨hdriven, rfl, hsize, ⟨m₁, hline, hsame _ rfl, hprinted.console⟩, m₂, ?_,
    hprinted'.console⟩
  rw [hfault, size_laidOut]
  rfl

end Machine

end FlatMachine
