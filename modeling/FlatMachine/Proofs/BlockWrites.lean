import FlatMachine.Proofs.PrintPaths

/-!
# Blocks and strings that the host puts in memory

The host writes a block after one test, in arithmetic that does not wrap. So a block
that does not fit leaves no trace, and one that fits is the same as its bytes stored
one by one, because the walk along it ends before the address space does.

A string is a block and then one more byte, tested on its own. Between the two tests
there is exactly one place where the first succeeds and the second fails: the block
ends where memory ends. Then the block stays written and only its zero is missing.
The address of that zero is a sum that wraps, and it is the reason why memory has to
be smaller than the address space: in a memory as large as that, the zero would land
at the sink.
-/

namespace FlatMachine

namespace Memory

/-- Memory as a bus that has no devices. -/
instance : Bus Memory where
  load a := Action.reading fun m => m.load a
  store := store

/-- The memory after a block has been put at an address: the block is there, and
everything else is as it was. -/
structure Placed (m : Memory) (a : Address) (bs : List UInt8) (m' : Memory) : Prop where
  size : m'.size = m.size
  inside : ∀ k, k < bs.length → m'.bytes[a.toNat + k]? = bs[k]?
  outside : ∀ i, i < a.toNat ∨ a.toNat + bs.length ≤ i → m'.bytes[i]? = m.bytes[i]?

variable {m : Memory} {a : Address} {bs : List UInt8}

theorem overwrite_placed (hfit : a.toNat + bs.length ≤ m.size) :
    m.Placed a bs (m.overwrite a bs) where
  size := size_overwrite m a bs
  inside _ hk := overwrite_window hfit hk
  outside _ hi := overwrite_frame hi

theorem storeBytes_of_le (hspace : m.size < Address.space)
    (hfit : a.toNat + bs.length ≤ m.size) :
    Bus.storeBytes a bs m = .ok () (m.overwrite a bs) := by
  induction bs generalizing m a with
  | nil => rfl
  | cons b bs ih =>
      rw [List.length_cons] at hfit
      -- The address space goes on past the end of memory, so the next address does not wrap
      -- even if this byte is the last one.
      have hnext : (a + 1).toNat = a.toNat + 1 :=
        Address.toNat_succ_of_lt (by omega)
      have hstore : Bus.store a b m = .ok () (m.overwrite a [b]) :=
        store_of_lt (by omega)
      rw [Bus.storeBytes, Action.bind_ok hstore,
        ih (by rwa [size_overwrite]) (by rw [size_overwrite, hnext]; omega),
        overwrite_append hnext]
      rfl

theorem write_error_iff :
    (∃ e m', write a bs m = .error e m') ↔ m.size < a.toNat + bs.length := by
  constructor
  · rintro ⟨e, m', he⟩
    rcases Nat.lt_or_ge m.size (a.toNat + bs.length) with hlt | hfit
    · exact hlt
    · rw [write_of_le hfit] at he
      cases he
  · intro hlt
    exact ⟨_, _, write_of_lt hlt⟩

/-! ## Strings -/

section Strings

variable (hspace : m.size < Address.space)
include hspace

/-- The zero behind a block that ends in memory is where it should be. -/
theorem toNat_terminator (hfit : a.toNat + bs.length ≤ m.size) :
    (a + UInt32.ofNat bs.length).toNat = a.toNat + bs.length := by
  have hlen : (UInt32.ofNat bs.length).toNat = bs.length :=
    Address.toNat_ofNat_of_lt (by omega)
  rw [Address.toNat_add_of_lt (by omega), hlen]

theorem writeString_of_lt (hfit : a.toNat + bs.length < m.size) :
    writeString a bs m = .ok () (m.overwrite a (bs ++ [0])) := by
  have hend := toNat_terminator hspace (Nat.le_of_lt hfit)
  have hstore : store (a + UInt32.ofNat bs.length) 0 (m.overwrite a bs) = .ok () _ :=
    store_of_lt (by rwa [size_overwrite, hend])
  rw [writeString, Action.bind_ok (write_of_le (Nat.le_of_lt hfit)), hstore,
    overwrite_append hend]

theorem writeString_of_eq (hbrim : a.toNat + bs.length = m.size) :
    writeString a bs m =
      .error (.storeByte (UInt32.ofNat m.size)) (m.overwrite a bs) := by
  have hend := toNat_terminator hspace (Nat.le_of_eq hbrim)
  have hstore : store (a + UInt32.ofNat bs.length) 0 (m.overwrite a bs) = .error _ _ :=
    store_of_le (by rw [size_overwrite, hend]; exact Nat.le_of_eq hbrim.symm)
  rw [writeString, Action.bind_ok (write_of_le (Nat.le_of_eq hbrim)), hstore,
    Address.ofNat_toNat_eq (hend.trans hbrim)]

end Strings

theorem writeString_of_past (hpast : m.size < a.toNat + bs.length) :
    writeString a bs m = .error (.write a.toNat (a.toNat + bs.length) m.size) m := by
  rw [writeString, Action.bind_error (write_of_lt hpast)]

theorem Placed.string_eq {s : List UInt8} {m' : Memory} (h : m.Placed a (s ++ [0]) m') :
    m'.string a = s.takeWhile (· ≠ 0) := by
  rw [Memory.string_eq]
  refine stringFrom_eq (fun k hk => ?_) ?_
  · rw [h.inside k (by rw [List.length_append]; omega), List.getElem?_append_left hk]
  · rw [h.inside s.length (by simp), List.getElem?_concat_length]

end Memory

namespace Machine

variable {m : Machine} {a : Address} {s : List UInt8}

theorem writeString_placed (hspace : m.memory.size < Address.space)
    (hfit : a.toNat + s.length + 1 ≤ m.memory.size) :
    ∃ memory, writeString a s m = .ok () { m with memory } ∧
      m.memory.Placed a (s ++ [0]) memory :=
  ⟨_, onMemory_ok (Memory.writeString_of_lt hspace hfit),
    Memory.overwrite_placed (by rw [List.length_append]; exact hfit)⟩

theorem writeString_brim (hspace : m.memory.size < Address.space)
    (hbrim : a.toNat + s.length = m.memory.size) :
    ∃ memory, writeString a s m =
        .error (.storeByte (UInt32.ofNat m.memory.size)) { m with memory } ∧
      m.memory.Placed a s memory :=
  ⟨_, onMemory_error (Memory.writeString_of_eq hspace hbrim),
    Memory.overwrite_placed (Nat.le_of_eq hbrim)⟩

theorem writeString_past (hpast : m.memory.size < a.toNat + s.length) :
    writeString a s m =
      .error (.write a.toNat (a.toNat + s.length) m.memory.size) m :=
  onMemory_error (Memory.writeString_of_past hpast)

theorem writeString_error_iff (hspace : m.memory.size < Address.space) :
    (∃ e m', writeString a s m = .error e m') ↔
      m.memory.size < a.toNat + s.length + 1 := by
  constructor
  · rintro ⟨e, m', he⟩
    rcases Nat.lt_or_ge m.memory.size (a.toNat + s.length + 1) with hlt | hfit
    · exact hlt
    · obtain ⟨memory, hok, -⟩ := writeString_placed hspace hfit
      rw [hok] at he
      cases he
  · intro hlt
    -- Either the zero alone does not fit, or the block does not.
    rcases Nat.eq_or_lt_of_le (Nat.le_of_lt_succ hlt) with hbrim | hpast
    · obtain ⟨memory, herror, -⟩ := writeString_brim hspace hbrim.symm
      exact ⟨_, _, herror⟩
    · exact ⟨_, _, writeString_past hpast⟩

/-- What the host's writes do to any memory that is smaller than the address space,
whatever the status of the machine and whichever registers they cover. A block faults
exactly if it does not fit, the empty one included, and then nothing has changed. Else
it is its bytes stored in order. A string faults exactly if it does not fit with its
zero. Else it is there, and reads back up to its own first zero. A fault has left
nothing behind, except where only the zero did not fit. -/
theorem writes_place_or_fault :
    (∀ m : Machine, m.Driven → m.memory.size < Address.space) ∧
    (∀ (m : Memory) (a : Address) (bs : List UInt8), m.size < Address.space →
      ((∃ e m', Memory.write a bs m = .error e m') ↔ m.size < a.toNat + bs.length) ∧
      (∀ e m', Memory.write a bs m = .error e m' → m' = m) ∧
      (∀ m', Memory.write a bs m = .ok () m' →
        Bus.storeBytes a bs m = .ok () m' ∧ m.Placed a bs m')) ∧
    ∀ (m : Machine) (a : Address) (s : List UInt8), m.memory.size < Address.space →
      ((∃ e m', writeString a s m = .error e m') ↔
        m.memory.size < a.toNat + s.length + 1) ∧
      (∀ m', writeString a s m = .ok () m' →
        ∃ memory, m' = { m with memory } ∧ m.memory.Placed a (s ++ [0]) memory ∧
          memory.string a = s.takeWhile (· ≠ 0)) ∧
      (∀ e m', writeString a s m = .error e m' →
        (a.toNat + s.length ≠ m.memory.size → m' = m) ∧
        (a.toNat + s.length = m.memory.size →
          ∃ memory, m' = { m with memory } ∧ m.memory.Placed a s memory)) := by
  refine ⟨fun m hm => ?_, fun m a bs hspace => ⟨Memory.write_error_iff, ?_, ?_⟩,
    fun m a s hspace => ⟨writeString_error_iff hspace, ?_, ?_⟩⟩
  · exact Nat.lt_of_le_of_lt hm.size.2 (by decide)
  · intro e m' he
    rw [Memory.write_of_lt (Memory.write_error_iff.mp ⟨e, m', he⟩)] at he
    cases he
    rfl
  · intro m' hok
    rcases Nat.lt_or_ge m.size (a.toNat + bs.length) with hlt | hfit
    · rw [Memory.write_of_lt hlt] at hok
      cases hok
    · rw [Memory.write_of_le hfit] at hok
      cases hok
      exact ⟨Memory.storeBytes_of_le hspace hfit, Memory.overwrite_placed hfit⟩
  · intro m' hok
    rcases Nat.lt_or_ge m.memory.size (a.toNat + s.length + 1) with hlt | hfit
    · obtain ⟨e, m'', herror⟩ := (writeString_error_iff hspace).mpr hlt
      cases herror.symm.trans hok
    · obtain ⟨memory, hrun, hplaced⟩ := writeString_placed hspace hfit
      cases hrun.symm.trans hok
      exact ⟨memory, rfl, hplaced, hplaced.string_eq⟩
  · intro e m' he
    have hlt := (writeString_error_iff hspace).mp ⟨e, m', he⟩
    refine ⟨fun hne => ?_, fun hbrim => ?_⟩
    · have hpast : m.memory.size < a.toNat + s.length := by omega
      cases (writeString_past hpast).symm.trans he
      rfl
    · obtain ⟨memory, hrun, hplaced⟩ := writeString_brim hspace hbrim
      cases hrun.symm.trans he
      exact ⟨memory, rfl, hplaced⟩

/-- On a halted machine of 264 bytes: the empty block one byte past the end, a string
that ends where memory ends, and one with a zero in it right over the registers. -/
theorem writes_place_or_fault_brim :
    let m := { laidOut ⟨264, 256, 0⟩ with status := .halted }
    m.memory.size = 264 ∧ 264 < Address.space ∧
      (∃ e, Memory.write 265 [] m.memory = .error e m.memory) ∧
      (∃ e memory, writeString 262 [7, 9] m = .error e { m with memory } ∧
        memory.bytes[262]? = some 7 ∧ memory.bytes[263]? = some 9 ∧
        memory.bytes[261]? = m.memory.bytes[261]?) ∧
      ∃ memory, writeString 0 [65, 0, 66] m = .ok () { m with memory } ∧
        memory.bytes[2]? = some 66 ∧ memory.bytes[3]? = some 0 ∧
        memory.string 0 = [65] := by
  intro m
  have hsize : m.memory.size = 264 := by decide +kernel
  have hspace : m.memory.size < Address.space := by
    rw [hsize]
    decide
  refine ⟨hsize, by decide, ?_, ?_, ?_⟩
  · obtain ⟨hfaults, hkept, -⟩ := writes_place_or_fault.2.1 m.memory 265 [] hspace
    obtain ⟨e, m', herror⟩ := hfaults.mpr (by rw [hsize]; decide)
    rw [hkept e m' herror] at herror
    exact ⟨e, herror⟩
  · obtain ⟨hfaults, -, hleft⟩ := writes_place_or_fault.2.2 m 262 [7, 9] hspace
    obtain ⟨e, m', herror⟩ := hfaults.mpr (by rw [hsize]; decide)
    obtain ⟨memory, rfl, hplaced⟩ := (hleft e m' herror).2 (by rw [hsize]; rfl)
    exact ⟨e, memory, herror, hplaced.inside 0 (by decide), hplaced.inside 1 (by decide),
      hplaced.outside 261 (.inl (by decide))⟩
  · obtain ⟨hfaults, hplaces, -⟩ := writes_place_or_fault.2.2 m 0 [65, 0, 66] hspace
    cases hrun : writeString 0 [65, 0, 66] m with
    | error e m' =>
        have hlt := hfaults.mp ⟨e, m', hrun⟩
        rw [hsize] at hlt
        exact absurd hlt (by decide)
    | ok u m' =>
        obtain ⟨memory, rfl, hplaced, hstring⟩ := hplaces m' hrun
        exact ⟨memory, rfl, hplaced.inside 2 (by decide), hplaced.inside 3 (by decide),
          hstring⟩

end Machine

end FlatMachine
