import FlatMachine.Proofs.GuestHeap
import FlatMachine.Proofs.MachineEffects

/-!
# Strings on the heap stay as they were stored

A guest that keeps to its heap stores strings, takes blocks, prints and halts, in
any order and as often as it likes, while the host looks on. `Kept` is what such a
session never loses: every string stored so far is in memory with its closing zero
behind it, and no other byte has changed but the sink and the halt flag.

The invariant needs two more things to be kept up. While the machine runs, all
strings lie below the position of the next block, so the next string cannot land
on an old one; and they lie above the stack, so the registers still say what they
said. Once the machine has halted neither matters, because nothing is stored.

So there are three kinds of steps. A quiet one leaves every string where it is. On
a halted machine every step is quiet. And a string that finds room is stored at
the position, which moves past it.
-/

namespace FlatMachine

/-- A string on the heap. -/
structure StoredString where
  start : Address
  text : List UInt8
deriving DecidableEq, Repr

namespace StoredString

/-- The position right past a string and its closing zero. -/
def stop (b : StoredString) : Nat :=
  b.start.toNat + b.text.length + 1

/-- The positions of a string and of its closing zero. -/
def Covers (b : StoredString) (i : Nat) : Prop :=
  b.start.toNat ≤ i ∧ i < b.stop

/-- A memory in which a string stands, with a zero behind it. -/
def In (b : StoredString) (m : Memory) : Prop :=
  ∀ k, k < b.text.length + 1 → m.bytes[b.start.toNat + k]? = (b.text ++ [0])[k]?

theorem In.of_frame {b : StoredString} {m m' : Memory} (h : b.In m)
    (hframe : ∀ i, b.Covers i → m'.bytes[i]? = m.bytes[i]?) : b.In m' := by
  intro k hk
  rw [hframe _ ⟨Nat.le_add_right _ _, by rw [stop]; omega⟩]
  exact h k hk

theorem In.extract {b : StoredString} {m : Memory} (h : b.In m) (hfit : b.stop ≤ m.size) :
    m.extract b.start.toNat (b.start.toNat + b.text.length) = b.text ∧
      m.bytes[b.start.toNat + b.text.length]? = some 0 := by
  rw [stop] at hfit
  refine ⟨Memory.extract_eq (by omega) fun k hk => ?_, ?_⟩
  · rw [h k (by omega), List.getElem?_append_left hk]
  · rw [h _ (Nat.lt_succ_self _), List.getElem?_concat_length]

end StoredString

/-! ## Steps -/

/-- A step of a guest that keeps to its heap: it stores nothing on its own account and
keeps the heap it has. -/
def GuestStep.isOrderly : GuestStep → Bool
  | access (.store _ _) | access (.storeWord _ _) | newHeap => false
  | _ => true

/-- A step of a session whose guest keeps to its heap and whose host only looks. -/
def MachineStep.isOrderly : MachineStep → Bool
  | guest t => t.isOrderly
  | t => t.isReading

/-- The string that a step puts on the heap of a machine that runs. -/
def GuestStep.stores (t : GuestStep) (g : Guest Machine) : Option StoredString :=
  match t, g.bus.status with
  | storeString text, .running =>
    match Guest.storeString text g with
    | .ok (.ok a) _ => some ⟨a, text⟩
    | _ => none
  | _, _ => none

def MachineStep.stores (t : MachineStep) (s : MachineSession) : Option StoredString :=
  match t with
  | guest t => t.stores s.guest
  | _ => none

/-- The strings that some steps put on the heap while the machine runs, in order. -/
def MachineSession.strings (s : MachineSession) : List MachineStep → List StoredString
  | [] => []
  | t :: ts => (t.stores s).toList ++ (t.run.final s).strings ts

/-! ## What is kept -/

/-- A guest that has kept to the heap of a machine, and the strings it has stored. -/
structure Guest.Kept (m : Machine) (stackStart memEnd : Address)
    (strings : List StoredString) (g : Guest Machine) : Prop where
  size : g.bus.memory.size = m.memory.size
  stored : ∀ b ∈ strings, b.In g.bus.memory
  bounds : ∀ b ∈ strings, stackStart.toNat + 4 ≤ b.start.toNat ∧ b.stop ≤ memEnd.toNat
  frame : ∀ i : Nat, i ≠ 0 → i ≠ 12 → (∀ b ∈ strings, ¬ b.Covers i) →
    g.bus.memory.bytes[i]? = m.memory.bytes[i]?
  sits : g.bus.status = .running →
    ∃ c, g.Sits stackStart memEnd c ∧ ∀ b ∈ strings, b.stop ≤ c

namespace Guest

variable {m : Machine} {g g' : Guest Machine} {stackStart memEnd : Address} {c : Nat}
  {strings : List StoredString}

theorem Sits.of_quiet (hg : g.Sits stackStart memEnd c) (hq : g.bus.Quiet g'.bus)
    (hheap : g'.heap = g.heap) (hrun : g'.bus.status = .running) :
    g'.Sits stackStart memEnd c := by
  refine ⟨?_, hheap ▸ hg.position_eq, hg.start_le, hg.lt_space⟩
  exact hg.ready.of_frame hrun hq.size fun i hlo hhi => hq.bytes i (by omega) (by omega)

namespace Kept

theorem start (hm : m.Ready stackStart memEnd) :
    Kept m stackStart memEnd [] ⟨m, {}⟩ where
  size := rfl
  stored _ hb := nomatch hb
  bounds _ hb := nomatch hb
  frame _ _ _ _ := rfl
  sits _ := ⟨_, Sits.fresh hm, fun _ hb => nomatch hb⟩

/-- A quiet step keeps every string, because no string reaches down to the registers. -/
theorem of_quiet (h : Kept m stackStart memEnd strings g) (hio : 256 ≤ stackStart.toNat)
    (hq : g.bus.Quiet g'.bus)
    (hsits : g'.bus.status = .running →
      ∃ c, g'.Sits stackStart memEnd c ∧ ∀ b ∈ strings, b.stop ≤ c) :
    Kept m stackStart memEnd strings g' where
  size := hq.size.trans h.size
  stored b hb := by
    obtain ⟨hlow, -⟩ := h.bounds b hb
    refine (h.stored b hb).of_frame fun i hi => ?_
    obtain ⟨hlo, -⟩ := hi
    exact hq.bytes i (by omega) (by omega)
  bounds := h.bounds
  frame i h₀ h₁₂ hout := (hq.bytes i h₀ h₁₂).trans (h.frame i h₀ h₁₂ hout)
  sits := hsits

theorem of_halted (h : Kept m stackStart memEnd strings g) (hio : 256 ≤ stackStart.toNat)
    (hq : g.bus.Quiet g'.bus) (hhalted : g'.bus.status = .halted) :
    Kept m stackStart memEnd strings g' := by
  refine h.of_quiet hio hq fun hrun => ?_
  rw [hhalted] at hrun
  cases hrun

theorem of_beside (h : Kept m stackStart memEnd strings g) (hio : 256 ≤ stackStart.toNat)
    (hb : Beside Machine.Quiet g g') : Kept m stackStart memEnd strings g' := by
  obtain ⟨hq, hheap⟩ := hb
  refine h.of_quiet hio hq fun hrun => ?_
  obtain ⟨c, hg, hbelow⟩ := h.sits (hq.status hrun)
  exact ⟨c, hg.of_quiet hq hheap hrun, hbelow⟩

/-- A string stored at the position lies above all others. -/
theorem of_stored (h : Kept m stackStart memEnd strings g)
    (hg : g.Sits stackStart memEnd c) (hbelow : ∀ b ∈ strings, b.stop ≤ c)
    {text : List UInt8} (hfit : c + text.length + 1 ≤ memEnd.toNat) :
    Kept m stackStart memEnd (strings ++ [⟨UInt32.ofNat c, text⟩])
      ⟨g.bus.withBlock (UInt32.ofNat c) (text ++ [0]),
        ⟨UInt32.ofNat (c + text.length + 1)⟩⟩ := by
  have hnat := hg.toNat_ofNat
  have hstart := hg.start_le
  have hio := hg.ready.io_le
  have hlimit := hg.ready.size_le
  have hspace : Address.space = 2 ^ 32 := rfl
  have hlen : (text ++ [0]).length = text.length + 1 := List.length_append
  have hframe : ∀ i : Nat, i < c ∨ c + text.length + 1 ≤ i →
      (g.bus.withBlock (UInt32.ofNat c) (text ++ [0])).memory.bytes[i]? =
        g.bus.memory.bytes[i]? := by
    intro i hi
    exact Machine.withBlock_frame hg.lt_space (by rw [hlen]; omega)
  refine ⟨(Machine.size_withBlock _ _ _).trans h.size, ?_, ?_, ?_, fun _ => ?_⟩
  · intro b hb
    rcases List.mem_append.mp hb with hold | hnew
    · have hstop := hbelow b hold
      refine (h.stored b hold).of_frame fun i hi => hframe i ?_
      obtain ⟨-, hhi⟩ := hi
      omega
    · cases List.mem_singleton.mp hnew
      intro k hk
      rw [hnat]
      exact Machine.withBlock_window hg.lt_space
        (by rw [hlen, hg.ready.size_eq]; exact hfit) (by rw [hlen]; exact hk)
  · intro b hb
    rcases List.mem_append.mp hb with hold | hnew
    · exact h.bounds b hold
    · cases List.mem_singleton.mp hnew
      simp only [StoredString.stop, hnat]
      omega
  · intro i h₀ h₁₂ hout
    have hnew := hout _ (List.mem_append_right _ (List.mem_singleton.mpr rfl))
    simp only [StoredString.Covers, StoredString.stop, hnat] at hnew
    rw [hframe i (by omega)]
    exact h.frame i h₀ h₁₂ fun b hb => hout b (List.mem_append_left _ hb)
  · refine ⟨c + text.length + 1, hg.move (by omega) (by omega) ?_, ?_⟩
    · exact hg.ready.withBlock (by omega)
    · intro b hb
      rcases List.mem_append.mp hb with hold | hnew
      · have hstop := hbelow b hold
        omega
      · cases List.mem_singleton.mp hnew
        simp only [StoredString.stop, hnat]
        omega

/-! ## One step -/

/-- A machine that has complained and halted is quiet. -/
theorem exhausted (h : Kept m stackStart memEnd strings g) (hio : 256 ≤ stackStart.toNat)
    (heap : Heap) : Kept m stackStart memEnd strings ⟨g.bus.exhausted, heap⟩ := by
  refine h.of_halted hio ⟨g.bus.exhausted_keeps.2.2, ?_, ?_⟩ g.bus.exhausted_status
  · exact fun i h₀ h₁₂ => Machine.exhausted_frame (Nat.pos_of_ne_zero h₀) h₁₂
  · intro hrun
    rw [g.bus.exhausted_status] at hrun
    cases hrun

/-- Moving the cursor up keeps every string. -/
theorem moved (h : Kept m stackStart memEnd strings g) (hg : g.Sits stackStart memEnd c)
    (hbelow : ∀ b ∈ strings, b.stop ≤ c) {c' : Nat} (hle : c ≤ c')
    (hlt : c' < Address.space) :
    Kept m stackStart memEnd strings ⟨g.bus, ⟨UInt32.ofNat c'⟩⟩ := by
  refine h.of_quiet hg.ready.io_le (Machine.quiet_refl _) fun _ => ?_
  exact ⟨c', hg.move hle hlt hg.ready, fun b hb => Nat.le_trans (hbelow b hb) hle⟩

theorem reserve_step (h : Kept m stackStart memEnd strings g)
    (hg : g.Sits stackStart memEnd c) (hbelow : ∀ b ∈ strings, b.stop ≤ c) (size : UInt32) :
    Kept m stackStart memEnd strings ((reserve size).final g) := by
  have hlt := hg.lt_space
  have hrun := hg.reserve_run size
  split at hrun
  · rw [Action.final_ok hrun]
    exact h.moved hg hbelow (by omega) (by omega)
  · rw [Action.final_ok hrun]
    exact h.moved hg hbelow (Nat.le_refl c) hlt

theorem allocate_step (h : Kept m stackStart memEnd strings g)
    (hg : g.Sits stackStart memEnd c) (hbelow : ∀ b ∈ strings, b.stop ≤ c) (size : UInt32) :
    Kept m stackStart memEnd strings ((allocate size).final g) := by
  have hlt := hg.lt_space
  rcases Nat.lt_or_ge c memEnd.toNat with hin | hout
  · rw [Action.final_ok (hg.allocate_granted size hin)]
    exact h.moved hg hbelow (by omega) (by omega)
  · rw [Action.final_ok (hg.allocate_refused size hout)]
    exact h.exhausted hg.ready.io_le _

theorem storeString_step (h : Kept m stackStart memEnd strings g)
    (hg : g.Sits stackStart memEnd c) (hbelow : ∀ b ∈ strings, b.stop ≤ c)
    (text : List UInt8) :
    Kept m stackStart memEnd (strings ++ ((GuestStep.storeString text).stores g).toList)
      ((storeString text).final g) := by
  have hstores := hg.ready.running
  rcases Nat.lt_or_ge memEnd.toNat (c + text.length + 1) with hfull | hfit
  · have hrun := hg.storeString_full text hfull
    rw [Action.final_ok hrun]
    simp only [GuestStep.stores, hstores, hrun, Option.toList_none, List.append_nil]
    exact h.exhausted hg.ready.io_le _
  · have hrun := hg.storeString_fits text hfit
    rw [Action.final_ok hrun]
    simp only [GuestStep.stores, hstores, hrun, Option.toList_some]
    exact h.of_stored hg hbelow hfit

theorem guest_step (h : Kept m stackStart memEnd strings g) (hio : 256 ≤ stackStart.toNat)
    {t : GuestStep} (ht : t.isOrderly = true) :
    Kept m stackStart memEnd (strings ++ (t.stores g).toList) (t.run.final g) := by
  cases hplain : t.isPlain with
  | true =>
      have hnone : t.stores g = none := by
        cases t <;> first | rfl | cases hplain
      rw [hnone, Option.toList_none, List.append_nil]
      exact h.of_beside hio (Machine.quiet_output.plainStep hplain g)
  | false =>
      cases hstatus : g.bus.status with
      | halted =>
          -- Only strings stored while the machine runs count.
          have hnone : t.stores g = none := by
            simp only [GuestStep.stores, hstatus]
          have hstill := Machine.still_access.guestStep t g
          rw [hnone, Option.toList_none, List.append_nil]
          exact h.of_halted hio (hstill.quiet hstatus) (hstill.status hstatus)
      | running =>
          obtain ⟨c, hg, hbelow⟩ := h.sits hstatus
          cases t with
          | allocate size =>
              rw [GuestStep.run, Action.final_map]
              simpa [GuestStep.stores] using h.allocate_step hg hbelow size
          | reserve size =>
              rw [GuestStep.run, Action.final_map]
              simpa [GuestStep.stores] using h.reserve_step hg hbelow size
          | storeString text =>
              rw [GuestStep.run, Action.final_map]
              exact h.storeString_step hg hbelow text
          | newHeap => cases ht
          | access t =>
              cases t with
              | load a => cases hplain
              | loadWord a => cases hplain
              | store a b => cases ht
              | storeWord a w => cases ht
          | _ => cases hplain

theorem session_step {s : MachineSession} (h : Kept m stackStart memEnd strings s.guest)
    (hio : 256 ≤ stackStart.toNat) {t : MachineStep} (ht : t.isOrderly = true) :
    Kept m stackStart memEnd (strings ++ (t.stores s).toList) (t.run.final s).guest := by
  cases hreading : t.isReading with
  | true =>
      have hnone : t.stores s = none := by
        cases t <;> first | rfl | cases hreading
      have hconsole : ∀ m : Machine, m.Quiet { m with console := #[] } := fun _ =>
        ⟨rfl, fun _ _ _ => rfl, id⟩
      rw [hnone, Option.toList_none, List.append_nil]
      exact h.of_beside hio
        (MachineStep.run_reading Machine.quiet_refl hconsole hreading s)
  | false =>
      cases t with
      | guest t =>
          rw [MachineStep.run, MachineSession.final_onGuest]
          exact h.guest_step hio ht
      | write a bs => cases ht
      | writeString a bs => cases ht
      | runScript script => cases ht
      | _ => cases hreading

theorem session_after {s : MachineSession} (h : Kept m stackStart memEnd strings s.guest)
    (hio : 256 ≤ stackStart.toNat) {ts : List MachineStep}
    (hts : ∀ t ∈ ts, t.isOrderly = true) :
    Kept m stackStart memEnd (strings ++ s.strings ts)
      (Session.after MachineStep.run ts s).guest := by
  induction ts generalizing s strings with
  | nil => simpa [MachineSession.strings] using h
  | cons t ts ih =>
      have hnext := ih (h.session_step hio (hts t List.mem_cons_self))
        fun u hu => hts u (List.mem_cons_of_mem t hu)
      rw [List.append_assoc] at hnext
      rw [Session.after_cons, MachineSession.strings]
      exact hnext

end Kept

end Guest

/-- Any steps of a fresh machine's guest that keeps to its heap, with a host that
looks on. At the end, and so after each of them, every string stored while the
machine ran is in memory with its closing zero, and every other byte is as it was
set up, but for the sink and the halt flag. So the registers say the same, and all
below the heap is untouched. -/
theorem MachineSession.strings_survive {m : Machine} (hm : m.Fresh)
    (steps : List MachineStep) (hsteps : ∀ t ∈ steps, t.isOrderly = true) :
    let strings := (ofMachine m).strings steps
    let m' := (Session.after MachineStep.run steps (ofMachine m)).machine
    (∀ b ∈ strings,
      m'.memory.extract b.start.toNat (b.start.toNat + b.text.length) = b.text ∧
        m'.memory.bytes[b.start.toNat + b.text.length]? = some 0) ∧
    (∀ i : Nat, i ≠ 0 → i ≠ 12 → (∀ b ∈ strings, ¬ b.Covers i) →
      m'.memory.bytes[i]? = m.memory.bytes[i]?) ∧
    m'.memory.size = m.memory.size ∧ m'.memEnd = m.memEnd ∧ m'.stackStart = m.stackStart ∧
    ∃ stackStart, m.stackStart = .ok stackStart ∧
      ∀ i : Nat, i ≠ 0 → i ≠ 12 → i < stackStart.toNat + 4 →
        m'.memory.bytes[i]? = m.memory.bytes[i]? := by
  obtain ⟨stackStart, memEnd, hready⟩ := hm.ready
  have hio := hready.io_le
  have hkept := (Guest.Kept.start hready).session_after (s := ofMachine m) hio hsteps
  rw [List.nil_append] at hkept
  have hbelow : ∀ i : Nat, i ≠ 0 → i ≠ 12 → i < stackStart.toNat + 4 →
      (Session.after MachineStep.run steps (ofMachine m)).machine.memory.bytes[i]? =
        m.memory.bytes[i]? := by
    intro i h₀ h₁₂ hi
    refine hkept.frame i h₀ h₁₂ fun b hb hcovers => ?_
    have hstart := (hkept.bounds b hb).1
    have hlo := hcovers.1
    omega
  have hshows : (Session.after MachineStep.run steps (ofMachine m)).machine.Shows
      stackStart memEnd :=
    hready.shows.of_frame hkept.size fun i hlo hhi =>
      hbelow i (by omega) (by omega) (by omega)
  refine ⟨fun b hb => ?_, hkept.frame, hkept.size,
    hshows.memEnd_eq.trans hready.memEnd_eq.symm,
    hshows.stackStart_eq.trans hready.stackStart_eq.symm, stackStart,
    hready.stackStart_eq, hbelow⟩
  refine (hkept.stored b hb).extract ?_
  rw [hkept.size, hready.size_eq]
  exact (hkept.bounds b hb).2

/-- Two strings with a block between them, printed, printed past the end of memory and
copied, and at last a block that is taken where the next string would go. -/
theorem MachineSession.strings_survive_crowded :
    let m := Machine.laidOut ⟨280, 256, 0⟩
    let steps : List MachineStep :=
      [.guest (.storeString [104, 105, 0, 33]), .guest (.printLineAt 260),
        .guest (.reserve 3), .guest (.printLineAt 0xFFFFFFFF), .guest (.storeString [7]),
        .listFromMemory, .list (.print 268), .guest (.allocate 100),
        .guest (.storeString []), .guest (.storeString [8])]
    let m' := (Session.after MachineStep.run steps (ofMachine m)).machine
    m.Fresh ∧ (∀ t ∈ steps, t.isOrderly = true) ∧
      (ofMachine m).strings steps = [⟨260, [104, 105, 0, 33]⟩, ⟨268, [7]⟩] ∧
      m'.memory.extract 260 264 = [104, 105, 0, 33] ∧ m'.memory.bytes[269]? = some 0 ∧
      m'.memEnd = m.memEnd := by
  have hvalid : (⟨280, 256, 0⟩ : Layout).Valid := ⟨by decide, by decide, by decide⟩
  have hfresh : (Machine.laidOut ⟨280, 256, 0⟩).Fresh :=
    .ofLayout (Machine.ofLayout_of_valid hvalid)
  intro m steps
  have horderly : ∀ t ∈ steps, t.isOrderly = true := by decide
  have hstrings : (ofMachine m).strings steps =
      [⟨260, [104, 105, 0, 33]⟩, ⟨268, [7]⟩] := by decide +kernel
  obtain ⟨hstored, -, -, hmemEnd, -⟩ := strings_survive hfresh steps horderly
  rw [hstrings] at hstored
  generalize Session.after MachineStep.run steps (ofMachine m) = s at hstored hmemEnd ⊢
  exact ⟨hfresh, horderly, hstrings, (hstored ⟨260, [104, 105, 0, 33]⟩ (by simp)).1,
    (hstored ⟨268, [7]⟩ (by simp)).2, hmemEnd⟩

end FlatMachine
