import FlatMachine.Proofs.GuestHeap
import FlatMachine.Proofs.HeapSafety
import FlatMachine.Proofs.MachineEffects

/-!
# Running out of memory is final

A block is refused when the cursor has reached the end of memory as its register
has it. The refusal is reported and the machine halts, and the question is whether
anything the guest does later can undo it: move the cursor back, raise the end of
memory, or get one more byte on the console.

Nothing can, and the two halves hold each other up. A halted machine drops every
store, so the register keeps the value that caused the refusal; and a cursor that
is at or past the end of memory is where every call leaves it. `Guest.Spent` is
that state, and no step leads out of it. Whatever the guest had done to its
registers before does not matter: they can be read, and that is enough.
-/

namespace FlatMachine

namespace Machine

variable {m : Machine}

/-- The machine after some stores that it did not take. -/
def dropping (m : Machine) (n : Nat) : Machine :=
  { m with droppedStores := m.droppedStores + n }

theorem store_dropping {a : Address} {b : UInt8} (h : m.status = .halted) :
    Bus.store a b m = .ok () (m.dropping 1) :=
  store_halted h

theorem dropping_zero (m : Machine) : m.dropping 0 = m := rfl

theorem dropping_add (m : Machine) (n k : Nat) :
    (m.dropping n).dropping k = m.dropping (n + k) := by
  simp only [dropping, Nat.add_assoc]

theorem writeChars_halted (cs : List UInt8) (h : m.status = .halted) :
    writeChars cs m = .ok () (m.dropping cs.length) := by
  induction cs generalizing m with
  | nil => rfl
  | cons c cs ih =>
      have hdrop : writeChar c m = .ok () (m.dropping 1) := store_dropping h
      have hrest : writeChars cs (m.dropping 1) = _ := ih h
      rw [writeChars, Action.bind_ok hdrop, hrest, dropping_add, List.length_cons,
        Nat.add_comm]

/-- The complaint of a halted machine comes to nothing. -/
theorem haltOutOfMemory_halted (h : m.status = .halted) :
    haltOutOfMemory m = .ok {} (m.dropping (outOfMemory.length + 2)) := by
  have hcut : outOfMemory.takeWhile (· ≠ 0) = outOfMemory := by decide
  have hline : printLine outOfMemory m = .ok () (m.dropping (outOfMemory.length + 1)) := by
    rw [printLine, Action.bind_ok (writeChars_halted _ h), hcut, ← dropping_add]
    exact store_dropping h
  have hflag : Bus.store Register.haltFlag.address 1 (m.dropping (outOfMemory.length + 1)) =
      .ok () (m.dropping (outOfMemory.length + 2)) := by
    rw [← dropping_add m (outOfMemory.length + 1) 1]
    exact store_dropping h
  rw [haltOutOfMemory, Action.bind_ok hline, halt]
  exact Action.bind_ok hflag

/-- What a machine has come to, if all that may have been done to it is to complain
about memory, any number of times. -/
inductive Complained (m : Machine) : Bool → Machine → Prop
  | never : Complained m false m
  | first (dropped : Nat) : Complained m true (m.exhausted.dropping dropped)

namespace Complained

variable {m' : Machine} {b : Bool} {stackStart memEnd : Address}

theorem shows (h : m.Complained b m') (hm : m.Shows stackStart memEnd) :
    m'.Shows stackStart memEnd := by
  cases h with
  | never => exact hm
  | first dropped => exact (exhausted_shows hm).of_frame rfl fun _ _ _ => rfl

theorem console_eq (h : m.Complained b m') :
    m'.console.toList = m.console.toList ++ if b then outOfMemory ++ [newline] else [] := by
  cases h with
  | never => simp
  | first dropped => exact m.exhausted_console

theorem status_eq (h : m.Complained b m') (hrun : m.status = .running) :
    m'.status = if b then .halted else .running := by
  cases h with
  | never => exact hrun
  | first dropped => exact m.exhausted_status

/-- Only the first complaint is heard. -/
theorem again (h : m.Complained b m') (hrun : m.status = .running)
    (hsize : 12 < m.memory.size) :
    ∃ m'', haltOutOfMemory m' = .ok {} m'' ∧ m.Complained true m'' := by
  cases h with
  | never =>
      refine ⟨_, haltOutOfMemory_run hrun hsize, ?_⟩
      rw [← dropping_zero m.exhausted]
      exact .first 0
  | first dropped =>
      refine ⟨_, haltOutOfMemory_halted m.exhausted_status, ?_⟩
      rw [dropping_add]
      exact .first _

end Complained

end Machine

namespace Heap

variable {c : Address}

/-- A heap starts past the stack, so it is never at null. -/
theorem positionFrom_ne_null (h : Heap) (stack : Address) :
    h.positionFrom (stack.saturatingAdd 4) ≠ Address.null := by
  rw [positionFrom]
  split
  · next hinit => exact bne_iff_ne.mp hinit
  · exact Guest.heapStart_ne_null stack

theorem positionFrom_used (hc : c ≠ Address.null) (start : Address) :
    (⟨c⟩ : Heap).positionFrom start = c :=
  if_pos (bne_iff_ne.mpr hc)

theorem positionFrom_moved (hc : c ≠ Address.null) (start : Address) (size : UInt32) :
    (⟨c.saturatingAdd size⟩ : Heap).positionFrom start = c.saturatingAdd size := by
  refine positionFrom_used (fun hnull => hc ?_) start
  have hle := Address.le_saturatingAdd c size
  have hzero : Address.null.toNat = 0 := rfl
  apply UInt32.toNat_inj.mp
  rw [hnull] at hle
  omega

end Heap

namespace Guest

variable {g g' : Guest Machine} {stackStart memEnd : Address}

/-- All there is to see of a guest, which is everything but the count of dropped
stores. -/
def visible (g : Guest Machine) : Memory × Array UInt8 × Status × Address × Heap :=
  (g.bus.memory, g.bus.console, g.bus.status, g.bus.entryPoint, g.heap)

theorem visible_of_still (hm : g.bus.status = .halted) (h : Beside Machine.Still g g') :
    g'.visible = g.visible := by
  obtain ⟨hbus, hheap⟩ := h
  rw [visible, hbus hm, hheap]
  rfl

/-- A guest on a halted machine, with a used heap that has reached the end of
memory. -/
structure Spent (g : Guest Machine) (memEnd : Address) : Prop where
  halted : g.bus.status = .halted
  used : g.heap.isInitialized = true
  shows : ∃ stackStart, g.bus.Shows stackStart memEnd
  past : memEnd ≤ g.heap.cursor

namespace Spent

theorem of_visible (h : g.Spent memEnd) (hv : g'.visible = g.visible) :
    g'.Spent memEnd := by
  simp only [visible, Prod.mk.injEq] at hv
  obtain ⟨hmemory, -, hstatus, -, hheap⟩ := hv
  obtain ⟨stackStart, hshows⟩ := h.shows
  refine ⟨hstatus.trans h.halted, hheap ▸ h.used, ⟨stackStart, ?_⟩, hheap ▸ h.past⟩
  exact hshows.of_frame (congrArg Memory.size hmemory) fun i _ _ => by rw [hmemory]

theorem position_eq (h : g.Spent memEnd) (start : Address) :
    g.heap.positionFrom start = g.heap.cursor :=
  if_pos h.used

theorem remaining_run (h : g.Spent memEnd) : remaining g = .ok 0 g := by
  obtain ⟨stackStart, hshows⟩ := h.shows
  have hnone : memEnd.distanceFrom g.heap.cursor = 0 := by
    have hpast := UInt32.le_iff_toNat_le.mp h.past
    apply UInt32.toNat_inj.mp
    rw [Address.toNat_distanceFrom, UInt32.toNat_zero]
    omega
  rw [remaining_shown hshows, h.position_eq, hnone]

theorem reserve_run (h : g.Spent memEnd) (size : UInt32) : reserve size g = .ok none g := by
  obtain ⟨stackStart, hshows⟩ := h.shows
  have hge : ¬ g.heap.positionFrom (stackStart.saturatingAdd 4) < memEnd := by
    rw [h.position_eq]
    exact UInt32.not_lt.mpr h.past
  rw [reserve_refused hshows size hge, h.position_eq]

theorem haltOutOfMemory_run (h : g.Spent memEnd) :
    haltOutOfMemory g = .ok {} ⟨g.bus.dropping (outOfMemory.length + 2), g.heap⟩ := by
  exact haltOutOfMemory_ok (Machine.haltOutOfMemory_halted h.halted) g.heap

theorem allocate_run (h : g.Spent memEnd) (size : UInt32) :
    allocate size g =
      .ok (.error {}) ⟨g.bus.dropping (outOfMemory.length + 2), g.heap⟩ :=
  allocate_of_refused (h.reserve_run size) (Machine.haltOutOfMemory_halted h.halted)

/-- A string does not even get to ask for a block: it has a closing zero at least. -/
theorem storeString_run (h : g.Spent memEnd) (s : List UInt8) :
    storeString s g =
      .ok (.error {}) ⟨g.bus.dropping (outOfMemory.length + 2), g.heap⟩ := by
  have hpos : (0 : UInt32) < stringSize s := by
    have hspace : Address.space = 2 ^ 32 := rfl
    rw [UInt32.lt_iff_toNat_lt, toNat_stringSize, UInt32.toNat_zero]
    omega
  rw [storeString, Action.bind_ok h.remaining_run, if_pos hpos]
  exact Action.map_ok h.haltOutOfMemory_run

/-- No step changes what can be seen, except by putting another heap in place. -/
theorem step_visible (h : g.Spent memEnd) {t : GuestStep} (ht : t ≠ .newHeap) :
    (t.run.final g).visible = g.visible := by
  have hstill := Machine.still_access
  cases hplain : t.isPlain with
  | true => exact visible_of_still h.halted (hstill.output.plainStep hplain g)
  | false =>
      cases t with
      | access t => exact visible_of_still h.halted (hstill.beside.accessStep t g)
      | allocate size =>
          rw [GuestStep.run, Action.final_ok (Action.map_ok (h.allocate_run size))]
          rfl
      | reserve size =>
          rw [GuestStep.run, Action.final_ok (Action.map_ok (h.reserve_run size))]
      | storeString s =>
          rw [GuestStep.run, Action.final_ok (Action.map_ok (h.storeString_run s))]
          rfl
      | newHeap => exact absurd rfl ht
      | _ => cases hplain

end Spent

end Guest

/-- What a step answers on a heap that is used up, if it asks anything of the heap. -/
def GuestStep.refusal : GuestStep → Option Reply
  | allocate _ | storeString _ => some (.halted {})
  | reserve _ => some .absent
  | remaining => some (.number 0)
  | _ => none

namespace Guest

variable {g g' : Guest Machine} {memEnd : Address}

theorem Spent.step_refused (h : g.Spent memEnd) {t : GuestStep} {r : Reply}
    (ht : t.refusal = some r) : t.run.outcome g = .ok r := by
  cases t with
  | allocate size =>
      cases ht
      exact Action.outcome_ok (Action.map_ok (h.allocate_run size))
  | storeString s =>
      cases ht
      exact Action.outcome_ok (Action.map_ok (h.storeString_run s))
  | reserve size =>
      cases ht
      exact Action.outcome_ok (Action.map_ok (h.reserve_run size))
  | remaining =>
      cases ht
      exact Action.outcome_ok (Action.bind_ok h.remaining_run)
  | _ => cases ht

/-- A block that is refused while the machine runs leaves the complaint on the
console, and a guest that is spent. -/
theorem allocate_error {size : UInt32} {halted : Halted} (hrun : g.bus.status = .running)
    (hlo : 256 ≤ g.bus.memory.size) (hhi : g.bus.memory.size < Address.space)
    (hfail : allocate size g = .ok (.error halted) g') :
    g'.bus = g.bus.exhausted ∧ ∃ memEnd, g'.Spent memEnd := by
  obtain ⟨stackStart, memEnd, hshows⟩ := Machine.shows_of_size (by omega) hhi
  have hused : (⟨g.heap.positionFrom (stackStart.saturatingAdd 4)⟩ : Heap).isInitialized =
      true :=
    bne_iff_ne.mpr (g.heap.positionFrom_ne_null stackStart)
  by_cases hlt : g.heap.positionFrom (stackStart.saturatingAdd 4) < memEnd
  · cases hfail.symm.trans (allocate_of_granted (reserve_granted hshows size hlt))
  · have hhalt := Machine.haltOutOfMemory_run hrun (by omega)
    obtain ⟨-, rfl⟩ := EStateM.Result.ok.inj
      ((allocate_of_refused (reserve_refused hshows size hlt) hhalt).symm.trans hfail)
    exact ⟨rfl, memEnd, g.bus.exhausted_status, hused,
      ⟨stackStart, Machine.exhausted_shows hshows⟩, UInt32.not_lt.mp hlt⟩

/-- A fresh machine under any guest steps, and then a block that is refused while
the machine still runs. The refusal puts one line on the console and halts the
machine. From then on every request is refused, nothing is left, and whatever the
guest tries, memory, console, status, entry point and heap stay as they were. -/
theorem exhaustion_final {m : Machine} (hm : m.Fresh) (before : List GuestStep)
    {g g' : Guest Machine} (hg : g = Session.after GuestStep.run before ⟨m, {}⟩)
    (hrun : g.bus.status = .running) {size : UInt32} {halted : Halted}
    (hfail : allocate size g = .ok (.error halted) g')
    (later : List GuestStep) (hsame : GuestStep.newHeap ∉ later) :
    g'.bus.console.toList = g.bus.console.toList ++ (outOfMemory ++ [newline]) ∧
    g'.bus.status = .halted ∧
    (∀ e ∈ (Session.run GuestStep.run visible later g').1, e.2 = g'.visible) ∧
    ∀ (k : Nat) (t : GuestStep) (r : Reply), later[k]? = some t → t.refusal = some r →
      (Session.run GuestStep.run visible later g').1[k]? = some (.ok r, g'.visible) := by
  obtain ⟨stackStart, memEnd, hready⟩ := hm.ready
  have hsize : g.bus.memory.size = m.memory.size := by
    rw [hg]
    exact Session.after_keeps (P := fun g : Guest Machine => g.bus.memory.size = m.memory.size)
      (fun (t : GuestStep) _ g hg => (Machine.sameSize_access.guestStep t g).trans hg) rfl
  obtain ⟨hbus, memEnd, hspent⟩ := allocate_error hrun (by rw [hsize]; exact hready.size_ge)
    (by rw [hsize]; exact hready.size_lt) hfail
  have hkeeps : ∀ t ∈ later, ∀ g : Guest Machine, g.visible = g'.visible →
      (t.run.final g).visible = g'.visible := by
    intro t ht g hv
    rw [(hspent.of_visible hv).step_visible (by rintro rfl; exact hsame ht), hv]
  have hat := @Session.run_at _ _ _ _ GuestStep.run visible g'
    (fun g => g.visible = g'.visible) later hkeeps rfl
  refine ⟨?_, hspent.halted, fun e he => ?_, fun k t r hk hr => ?_⟩
  · rw [hbus, Machine.exhausted_console]
  · obtain ⟨s, hs, hseen⟩ := Session.run_seen hkeeps rfl he
    exact hseen.trans hs
  · obtain ⟨s, hs, hk'⟩ := hat hk
    rw [hk', (hspent.of_visible hs).step_refused hr,
      hkeeps t (List.mem_of_getElem? hk) s hs]

/-- The last four bytes are taken, one more is refused, and raising the end of memory
then does not help. -/
theorem exhaustion_final_raised_end :
    let m := Machine.laidOut ⟨264, 256, 0⟩
    let g : Guest Machine := ⟨m, ⟨264⟩⟩
    let g' : Guest Machine := ⟨m.exhausted, ⟨264⟩⟩
    let later : List GuestStep :=
      [.access (.storeWord 4 0x01000000), .remaining, .storeString [], .reserve 1]
    m.Fresh ∧ g = Session.after GuestStep.run [.allocate 4] ⟨m, {}⟩ ∧
      g.bus.status = .running ∧ allocate 1 g = .ok (.error {}) g' ∧
      g'.bus.console.toList = outOfMemory ++ [newline] ∧
      (Session.run GuestStep.run visible later g').1[1]? =
        some (.ok (.number 0), g'.visible) ∧
      (Session.run GuestStep.run visible later g').1[2]? =
        some (.ok (.halted {}), g'.visible) := by
  have hvalid : (⟨264, 256, 0⟩ : Layout).Valid := ⟨by decide, by decide, by decide⟩
  have hfresh : (Machine.laidOut ⟨264, 256, 0⟩).Fresh :=
    .ofLayout (Machine.ofLayout_of_valid hvalid)
  have hready : (Machine.laidOut ⟨264, 256, 0⟩).Ready 256 264 :=
    Machine.laidOut_ready hvalid
  have hstart : Sits ⟨_, {}⟩ 256 264 260 := Sits.fresh hready
  have hfull : Sits ⟨_, ⟨264⟩⟩ 256 264 264 := hstart.move (by decide) (by decide) hready
  have hbefore : (⟨Machine.laidOut ⟨264, 256, 0⟩, ⟨264⟩⟩ : Guest Machine) =
      Session.after GuestStep.run [.allocate 4] ⟨Machine.laidOut ⟨264, 256, 0⟩, {}⟩ := by
    have hgrant := hstart.allocate_granted 4 (by decide)
    rw [Session.after_cons, Session.after_nil, GuestStep.run,
      Action.final_ok (Action.map_ok hgrant)]
    congr 1
  have hfail := hfull.allocate_refused 1 (by decide)
  obtain ⟨hconsole, -, -, hrefused⟩ := exhaustion_final hfresh [.allocate 4] hbefore rfl hfail
    [.access (.storeWord 4 0x01000000), .remaining, .storeString [], .reserve 1] (by decide)
  exact ⟨hfresh, hbefore, rfl, hfail, hconsole, hrefused 1 _ _ rfl rfl,
    hrefused 2 _ _ rfl rfl⟩

end Guest

end FlatMachine
