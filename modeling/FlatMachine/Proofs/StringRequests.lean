import FlatMachine.Proofs.GuestHeap

/-!
# A string is stored whole or not at all

Storing a string is a check and then a loop, and the two count differently. The
check works with a saturated length and a saturating distance, the loop cuts
lengths down to a word and wraps. They agree because memory is small: a length
that would saturate is too long for any memory, and below that nothing wraps.

The cursor may be null or anywhere above the stack, so the same guest may be about
to use its heap for the first time or have moved far past the end of memory. Both
are a position in the sense of `Guest.Sits`, and from there a string that fits is
one block, while one that does not fit has only asked for the room left, which
moves nothing.
-/

namespace FlatMachine

namespace Machine

variable {m : Machine}

theorem emit_sink (cs : List UInt8) (c : UInt8) (hsize : 0 < m.memory.size) :
    (m.emit (cs ++ [c])).memory.bytes[0]? = some c := by
  rw [emit_append]
  refine Memory.overwrite_byte_self (a := Register.sink.address) ?_
  rw [size_emit]
  exact hsize

/-- The complaint ends in a newline, and that is what the sink is left with. -/
theorem exhausted_sink (hsize : 0 < m.memory.size) :
    m.exhausted.memory.bytes[0]? = some newline := by
  have hbelow : (0 : Nat) ≠ Register.haltFlag.address.toNat := by decide
  exact (stored_frame hbelow).trans (emit_sink outOfMemory newline hsize)

theorem exhausted_flag (hsize : 12 < m.memory.size) :
    m.exhausted.memory.bytes[12]? = some 1 := by
  refine Memory.overwrite_byte_self (a := Register.haltFlag.address) ?_
  rw [size_emit]
  exact hsize

end Machine

namespace Guest

variable {g g' : Guest Machine} {stackStart memEnd : Address} {c : Nat}

/-- A string with its closing zero at position `c` of memory, the cursor right
behind it, and everything else as before. -/
structure Placed (g : Guest Machine) (s : List UInt8) (c : Nat) (g' : Guest Machine) :
    Prop where
  cursor : g'.heap.cursor.toNat = c + s.length + 1
  window : g'.bus.memory.extract c (c + s.length + 1) = s ++ [0]
  frame : ∀ i : Nat, i < c ∨ c + s.length < i →
    g'.bus.memory.bytes[i]? = g.bus.memory.bytes[i]?
  size : g'.bus.memory.size = g.bus.memory.size
  console : g'.bus.console = g.bus.console
  status : g'.bus.status = g.bus.status
  entryPoint : g'.bus.entryPoint = g.bus.entryPoint
  droppedStores : g'.bus.droppedStores = g.bus.droppedStores

/-- A complaint on the console and a halt, which show at the two registers they go
through and nowhere else. The heap is as before. -/
structure Denied (g g' : Guest Machine) : Prop where
  heap : g'.heap = g.heap
  console : g'.bus.console.toList = g.bus.console.toList ++ (outOfMemory ++ [newline])
  halted : g'.bus.status = .halted
  sink : g'.bus.memory.bytes[0]? = some 10
  flag : g'.bus.memory.bytes[12]? = some 1
  frame : ∀ i : Nat, i ≠ 0 → i ≠ 12 →
    g'.bus.memory.bytes[i]? = g.bus.memory.bytes[i]?
  size : g'.bus.memory.size = g.bus.memory.size
  entryPoint : g'.bus.entryPoint = g.bus.entryPoint
  droppedStores : g'.bus.droppedStores = g.bus.droppedStores

theorem Sits.placed (hg : g.Sits stackStart memEnd c) {s : List UInt8}
    (hfit : c + s.length + 1 ≤ memEnd.toNat) :
    g.Placed s c ⟨g.bus.withBlock (UInt32.ofNat c) (s ++ [0]),
      ⟨UInt32.ofNat (c + s.length + 1)⟩⟩ := by
  have hlen : (s ++ [0]).length = s.length + 1 := List.length_append
  have hsize := hg.ready.size_eq
  have hspace := hg.ready.size_lt
  refine
    { cursor := Address.toNat_ofNat_of_lt (by omega)
      window := ?_
      frame := fun i hi => Machine.withBlock_frame hg.lt_space (by rw [hlen]; omega)
      size := Machine.size_withBlock _ _ _
      console := rfl
      status := rfl
      entryPoint := rfl
      droppedStores := rfl }
  rw [Nat.add_assoc, ← hlen]
  refine Memory.extract_eq (by rw [hlen, Machine.size_withBlock]; omega) fun k hk => ?_
  exact Machine.withBlock_window hg.lt_space (by rw [hlen]; omega) hk

theorem Sits.denied (hg : g.Sits stackStart memEnd c) :
    g.Denied ⟨g.bus.exhausted, g.heap⟩ := by
  have hsize := hg.ready.size_ge
  obtain ⟨hentry, hdropped, hsame⟩ := g.bus.exhausted_keeps
  exact
    { heap := rfl
      console := g.bus.exhausted_console
      halted := g.bus.exhausted_status
      sink := Machine.exhausted_sink (by omega)
      flag := Machine.exhausted_flag (by omega)
      frame := fun i h₀ h₁₂ => Machine.exhausted_frame (Nat.pos_of_ne_zero h₀) h₁₂
      size := hsame
      entryPoint := hentry
      droppedStores := hdropped }

/-- A cursor that is null or past the start of the stack is a position. -/
theorem Sits.of_cursor (hm : g.bus.Ready stackStart memEnd)
    (hcursor : g.heap.cursor = Address.null ∨ stackStart.toNat + 4 ≤ g.heap.cursor.toNat) :
    g.Sits stackStart memEnd (if g.heap.cursor = Address.null then stackStart.toNat + 4
      else g.heap.cursor.toNat) := by
  obtain ⟨m, ⟨cursor⟩⟩ := g
  split
  · next hnull =>
      cases hnull
      exact Sits.fresh hm
  · next hused =>
      rcases hcursor with hnull | hpast
      · exact absurd hnull hused
      · have hinit : (⟨cursor⟩ : Heap).isInitialized = true := bne_iff_ne.mpr hused
        refine ⟨hm, ?_, hpast, cursor.toNat_lt_space⟩
        rw [Heap.positionFrom, if_pos hinit, UInt32.ofNat_toNat]

/-- Once there is room, the heap grants what the string takes. -/
theorem Sits.allocate_of_room (hg : g.Sits stackStart memEnd c) {s : List UInt8}
    {room : UInt32} (hroom : remaining g = .ok room g) (hle : stringSize s ≤ room) :
    ∃ a g', allocate (stringSize s) g = .ok (.ok a) g' := by
  have hfit : ¬ memEnd.distanceFrom (UInt32.ofNat c) < stringSize s := by
    rw [hg.remaining_run] at hroom
    cases hroom
    exact UInt32.not_lt.mpr hle
  rw [hg.remaining_lt_iff] at hfit
  exact ⟨_, _, hg.allocate_granted _ (by omega)⟩

/-- A guest on a ready machine, with its cursor null or past the start of the stack,
and any string. The call answers, and with an address exactly if the string and its
closing zero end at or below the end of memory. Then the string stands there and all
else is as before. Otherwise there is one complaint and a halt, and the heap has not
moved. The request for a block inside the call is always granted. -/
theorem storeString_all_or_nothing (hm : g.bus.Ready stackStart memEnd)
    (hcursor : g.heap.cursor = Address.null ∨ stackStart.toNat + 4 ≤ g.heap.cursor.toNat)
    (s : List UInt8) :
    let c := if g.heap.cursor = Address.null then stackStart.toNat + 4
      else g.heap.cursor.toNat
    (∃ answer g', storeString s g = .ok answer g' ∧
      ((∃ a, answer = .ok a) ↔ c + s.length + 1 ≤ memEnd.toNat) ∧
      (∀ a, answer = .ok a → a.toNat = c ∧ g.Placed s c g') ∧
      (∀ h, answer = .error h → g.Denied g')) ∧
    ∃ room, remaining g = .ok room g ∧
      (stringSize s ≤ room → ∃ a g', allocate (stringSize s) g = .ok (.ok a) g') := by
  intro c
  have hg : g.Sits stackStart memEnd c := Sits.of_cursor hm hcursor
  refine ⟨?_, _, hg.remaining_run, hg.allocate_of_room hg.remaining_run⟩
  rcases Nat.lt_or_ge memEnd.toNat (c + s.length + 1) with hfull | hfit
  · refine ⟨_, _, hg.storeString_full s hfull, ?_, ?_, fun _ _ => hg.denied⟩
    · constructor
      · rintro ⟨a, ha⟩
        cases ha
      · intro hfit
        omega
    · intro a ha
      cases ha
  · refine ⟨_, _, hg.storeString_fits s hfit, ?_, ?_, ?_⟩
    · exact ⟨fun _ => hfit, fun _ => ⟨_, rfl⟩⟩
    · intro a ha
      cases ha
      exact ⟨hg.toNat_ofNat, hg.placed hfit⟩
    · intro h hh
      cases hh

/-- A string that fills memory to its last byte, from a cursor in use, and the same
string one byte further up. -/
theorem storeString_all_or_nothing_brim :
    let m := Machine.laidOut ⟨280, 256, 0⟩
    let s : List UInt8 := [104, 105, 0, 33]
    m.Ready 256 280 ∧
      (∃ a g', storeString s ⟨m, ⟨275⟩⟩ = .ok (.ok a) g' ∧ a.toNat = 275 ∧
        g'.heap.cursor.toNat = 280 ∧ g'.bus.memory.extract 275 280 = s ++ [0] ∧
        g'.bus.status = .running) ∧
      ∃ h g', storeString s ⟨m, ⟨276⟩⟩ = .ok (.error h) g' ∧ g'.heap = ⟨276⟩ ∧
        g'.bus.console.toList = outOfMemory ++ [newline] ∧ g'.bus.status = .halted := by
  have hvalid : (⟨280, 256, 0⟩ : Layout).Valid := ⟨by decide, by decide, by decide⟩
  have hready : (Machine.laidOut ⟨280, 256, 0⟩).Ready 256 280 :=
    Machine.laidOut_ready hvalid
  refine ⟨hready, ?_, ?_⟩
  · obtain ⟨⟨answer, g', hrun, hiff, hplaced, -⟩, -⟩ := storeString_all_or_nothing
      (g := ⟨_, ⟨275⟩⟩) hready (.inr (by decide)) [104, 105, 0, 33]
    obtain ⟨a, rfl⟩ := hiff.mpr (by decide)
    obtain ⟨ha, hp⟩ := hplaced a rfl
    exact ⟨a, g', hrun, ha, hp.cursor, hp.window, hp.status⟩
  · obtain ⟨⟨answer, g', hrun, hiff, -, hdenied⟩, -⟩ := storeString_all_or_nothing
      (g := ⟨_, ⟨276⟩⟩) hready (.inr (by decide)) [104, 105, 0, 33]
    cases answer with
    | ok a => exact absurd (hiff.mp ⟨a, rfl⟩) (by decide)
    | error h =>
        have hd := hdenied h rfl
        exact ⟨h, g', hrun, hd.heap, hd.console, hd.halted⟩

end Guest

end FlatMachine
