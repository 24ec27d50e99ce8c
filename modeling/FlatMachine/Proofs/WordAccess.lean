import FlatMachine.Proofs.MachineEffects

/-!
# Words as the guest and as the host access them

The host loads and stores a word whole, after one test in wide arithmetic. The guest
takes four byte accesses at addresses that wrap, and a store goes past the devices.
Both see the same words. Wrapping never gets a chance, because memory ends long
before the address space does: an access that would wrap has left memory at its
first byte.

They part in two places only. A word that covers the sink or the halt flag makes a
device react, and a word that sticks out of memory is refused whole by the host,
while the guest has stored what lies below the end by the time it faults.
-/

namespace FlatMachine

namespace Memory

/-- The memory after the bytes of a word have been stored from an address up, as many
of them as lie in memory. -/
structure WordStored (m : Memory) (a : Address) (w : UInt32) (m' : Memory) : Prop where
  size : m'.size = m.size
  bytes : ∀ i : Nat, m'.bytes[i]? =
    if a.toNat ≤ i ∧ i < a.toNat + 4 ∧ i < m.size then
      some (UInt8.ofNat (w.toNat / 256 ^ (i - a.toNat)))
    else m.bytes[i]?

variable {m : Memory} {a : Address} {w : UInt32}

theorem overwrite_wordStored (m : Memory) (a : Address) (w : UInt32) :
    m.WordStored a w (m.overwrite a (Word.toBytes w)) := by
  have hlen := Word.length_toBytes w
  refine ⟨size_overwrite _ _ _, fun i => ?_⟩
  split
  · next hin =>
      have hinside : (m.overwrite a (Word.toBytes w)).bytes[a.toNat + (i - a.toNat)]? = _ :=
        overwrite_inside (by omega) (by omega)
      rw [Nat.add_sub_cancel' hin.1] at hinside
      rw [hinside, Word.toBytes_getElem? (by omega)]
  · next hout =>
      rcases Nat.lt_or_ge i m.size with hi | hi
      · exact overwrite_frame (by omega)
      · -- There is nothing past the end of memory, before or after.
        rw [Array.getElem?_eq_none (show (m.overwrite a _).size ≤ i by simpa using hi),
          Array.getElem?_eq_none (show m.size ≤ i from hi)]

theorem storeWord_of_le (h : a.toNat + 4 ≤ m.size) :
    storeWord a w m = .ok () (m.overwrite a (Word.toBytes w)) :=
  if_pos h

theorem storeWord_of_lt (h : m.size < a.toNat + 4) :
    storeWord a w m = .error (.storeWord a) m :=
  if_neg (Nat.not_le_of_lt h)

theorem loadWord_error_iff : (∃ e, m.loadWord a = .error e) ↔ m.size < a.toNat + 4 := by
  constructor
  · rintro ⟨e, he⟩
    rcases Nat.lt_or_ge m.size (a.toNat + 4) with hlt | hfit
    · exact hlt
    · rw [loadWord_of_le hfit] at he
      cases he
  · intro hlt
    exact ⟨_, loadWord_of_lt hlt⟩

end Memory

namespace Machine

variable {m : Machine} {a : Address} {w : UInt32}

theorem loadWord_past (hspace : m.memory.size < Address.space)
    (hpast : m.memory.size < a.toNat + 4) :
    Bus.loadWord a m =
      .error (.loadByte (UInt32.ofNat (max a.toNat m.memory.size))) m := by
  have hbytes : Bus.loadBytes Word.size a m = _ :=
    loadBytes_past 4 hspace (by decide) hpast
  rw [Bus.loadWord, Action.bind_error hbytes]

theorem loadWord_error_iff (hspace : m.memory.size < Address.space) :
    (∃ e m', Bus.loadWord a m = .error e m') ↔ m.memory.size < a.toNat + 4 := by
  constructor
  · rintro ⟨e, m', he⟩
    rcases Nat.lt_or_ge m.memory.size (a.toNat + 4) with hlt | hfit
    · exact hlt
    · rw [loadWord_eq hspace (Memory.loadWord_of_le hfit)] at he
      cases he
  · intro hpast
    exact ⟨_, _, loadWord_past hspace hpast⟩

theorem loadWord_ok_iff (hspace : m.memory.size < Address.space) (v : UInt32) :
    Bus.loadWord a m = .ok v m ↔ m.memory.loadWord a = .ok v := by
  refine ⟨fun h => ?_, loadWord_eq hspace⟩
  rcases Nat.lt_or_ge m.memory.size (a.toNat + 4) with hpast | hfit
  · rw [loadWord_past hspace hpast] at h
    cases h
  · have hfit' := Memory.loadWord_of_le hfit
    rw [loadWord_eq hspace hfit'] at h
    cases h
    exact hfit'

section Stores

variable (hrun : m.status = .running) (hspace : m.memory.size < Address.space)
  (hinert : ∀ k, k < 4 → (a + UInt32.ofNat k).Inert)
include hrun hspace hinert

theorem storeWord_inert (hfit : a.toNat + 4 ≤ m.memory.size) :
    Bus.storeWord a w m =
      .ok () { m with memory := m.memory.overwrite a (Word.toBytes w) } := by
  have hlen := Word.length_toBytes w
  exact storeBytes_inert _ hrun hspace (by rwa [hlen]) (by rwa [hlen])

theorem storeWord_past (hpast : m.memory.size < a.toNat + 4) :
    Bus.storeWord a w m =
      .error (.storeByte (UInt32.ofNat (max a.toNat m.memory.size)))
        { m with memory := m.memory.overwrite a (Word.toBytes w) } := by
  have hlen := Word.length_toBytes w
  exact storeBytes_past _ hrun hspace (by rwa [hlen])
    (List.ne_nil_of_length_eq_add_one hlen) (by rwa [hlen])

end Stores

/-- A machine that has been set up and driven by any steps, an address and a word. The
guest's load faults exactly if the host's does, which is if the word sticks out of
memory, and else they load the same. The two registers can always be read. While the
machine runs, a store away from the two output registers leaves what the host's store
leaves, if the word fits. If not, both fault: the host has stored nothing, and the
guest exactly the bytes that lie in memory. -/
theorem word_accesses_agree {m : Machine} (hm : m.Driven) (a : Address) (w : UInt32) :
    ((∃ e m', Bus.loadWord a m = .error e m') ↔ m.memory.size < a.toNat + 4) ∧
    ((∃ e, m.memory.loadWord a = .error e) ↔ m.memory.size < a.toNat + 4) ∧
    (∀ v, Bus.loadWord a m = .ok v m ↔ m.memory.loadWord a = .ok v) ∧
    (∃ stackStart memEnd, m.stackStart = .ok stackStart ∧ m.memEnd = .ok memEnd ∧
      Bus.loadWord Register.stackStart.address m = .ok stackStart m ∧
      Bus.loadWord Register.memEnd.address m = .ok memEnd m) ∧
    (m.status = .running → (∀ k, k < 4 → (a + UInt32.ofNat k).Inert) →
      (a.toNat + 4 ≤ m.memory.size → ∃ memory, m.memory.WordStored a w memory ∧
        Memory.storeWord a w m.memory = .ok () memory ∧
        Bus.storeWord a w m = .ok () { m with memory }) ∧
      (m.memory.size < a.toNat + 4 → ∃ memory, m.memory.WordStored a w memory ∧
        Memory.storeWord a w m.memory = .error (.storeWord a) m.memory ∧
        Bus.storeWord a w m =
          .error (.storeByte (UInt32.ofNat (max a.toNat m.memory.size)))
            { m with memory })) := by
  obtain ⟨hlo, hhi⟩ := hm.size
  have hspace : m.memory.size < Address.space := Nat.lt_of_le_of_lt hhi (by decide)
  refine ⟨loadWord_error_iff hspace, Memory.loadWord_error_iff, loadWord_ok_iff hspace,
    ?_, fun hrun hinert => ⟨fun hfit => ?_, fun hpast => ?_⟩⟩
  · obtain ⟨stackStart, memEnd, hshows⟩ := shows_of_size (by omega) hspace
    exact ⟨stackStart, memEnd, hshows.stackStart_eq, hshows.memEnd_eq,
      hshows.loadWord_stackStart, hshows.loadWord_memEnd⟩
  · exact ⟨_, Memory.overwrite_wordStored _ _ _, Memory.storeWord_of_le hfit,
      storeWord_inert hrun hspace hinert hfit⟩
  · exact ⟨_, Memory.overwrite_wordStored _ _ _, Memory.storeWord_of_lt hpast,
      storeWord_past hrun hspace hinert hpast⟩

/-- On a machine whose guest has overwritten the end of memory with the last address:
a store across the real end, one right below it, and a load that would wrap. -/
theorem word_accesses_agree_straddling :
    let m := (Session.after MachineStep.run [.guest (.access (.storeWord 4 0xFFFFFFFF))]
      (.ofMachine (laidOut ⟨264, 256, 0⟩))).machine
    m.Driven ∧ m.status = .running ∧ m.memory.size = 264 ∧
      (∃ memory, Bus.storeWord 262 0x44332211 m = .error (.storeByte 264) { m with memory } ∧
        memory.bytes[262]? = some 0x11 ∧ memory.bytes[263]? = some 0x22 ∧
        memory.bytes[261]? = m.memory.bytes[261]?) ∧
      (∃ memory, Memory.storeWord 260 0x44332211 m.memory = .ok () memory ∧
        Bus.storeWord 260 0x44332211 m = .ok () { m with memory }) ∧
      ∃ e m', Bus.loadWord 0xFFFFFFFE m = .error e m' := by
  intro m
  have hvalid : (⟨264, 256, 0⟩ : Layout).Valid := ⟨by decide, by decide, by decide⟩
  have hdriven : m.Driven := ⟨_, _, .ofLayout (ofLayout_of_valid hvalid), rfl⟩
  have hrun : m.status = .running := by decide +kernel
  have hsize : m.memory.size = 264 := by decide +kernel
  refine ⟨hdriven, hrun, hsize, ?_, ?_, ?_⟩
  · obtain ⟨-, -, -, -, hstores⟩ := word_accesses_agree hdriven 262 0x44332211
    obtain ⟨-, hpast⟩ := hstores hrun (by decide)
    obtain ⟨memory, ⟨-, hbytes⟩, -, hfault⟩ := hpast (by rw [hsize]; decide)
    rw [hsize] at hfault hbytes
    exact ⟨memory, hfault, hbytes 262, hbytes 263, hbytes 261⟩
  · obtain ⟨-, -, -, -, hstores⟩ := word_accesses_agree hdriven 260 0x44332211
    obtain ⟨hfits, -⟩ := hstores hrun (by decide)
    obtain ⟨memory, -, hwhole, hbytewise⟩ := hfits (by rw [hsize]; decide)
    exact ⟨memory, hwhole, hbytewise⟩
  · obtain ⟨hloads, -⟩ := word_accesses_agree hdriven 0xFFFFFFFE 0
    exact hloads.mpr (by rw [hsize]; decide)

end Machine

end FlatMachine
