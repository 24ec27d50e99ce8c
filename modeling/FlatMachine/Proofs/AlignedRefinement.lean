import FlatMachine.Proofs.AlignedBlocks
import FlatMachine.Proofs.StoreTrace
import Mathlib.Order.Bounds.Defs

/-!
# An aligned request is a plain one, rounded up

The aligned heap has its own way out when memory is exhausted, written apart from
the one of the plain heap. That the two do the same is a comparison of two programs
on one bus: `Allocator.alloc` works on a copy of the heap beside the allocator and
publishes it, `Guest.allocate` works on the heap itself. Running the plain request
on the bus inside the allocator takes the first to the second, and what is left is
the rounding.

Rounding up can leave the address space although the padded block was granted. Then
the answer is null with no complaint and no halt, and the block is lost. This is not
as bad as it sounds, by a carry: the rounded start lies within the padding, so the
padded block passes the last address as well, the cursor is stuck there, and nothing
would have been granted after it anyway.

Which stores a request makes is asked of a bus that keeps a record of them.
-/

namespace FlatMachine

open FlatMachine.Action (Within)

/-! ## Rounding up, exactly -/

theorem Address.alignUp?_eq (a : Address) {align : Nat} (hpos : 0 < align) :
    ∃ p, IsLeast {q : Nat | align ∣ q ∧ a.toNat ≤ q} p ∧ p ≤ a.toNat + (align - 1) ∧
      a.alignUp? align = if p < 2 ^ 32 then some (UInt32.ofNat p) else none := by
  have hsplit := Nat.div_add_mod' (a.toNat + (align - 1)) align
  have hrest := Nat.mod_lt (a.toNat + (align - 1)) hpos
  refine ⟨(a.toNat + (align - 1)) / align * align, ⟨⟨Nat.dvd_mul_left _ _, ?_⟩, ?_⟩, ?_, rfl⟩
  · omega
  · rintro q ⟨⟨k, rfl⟩, hle⟩
    rw [Nat.mul_comm align k]
    refine Nat.mul_le_mul_right align (Nat.le_of_lt_succ ?_)
    rw [Nat.div_lt_iff_lt_mul hpos, Nat.succ_mul, Nat.mul_comm k]
    omega
  · omega

/-! ## Buses that never fault -/

/-- An action that answers, whatever the storage. -/
def Action.Answers {σ α : Type} (x : Action σ α) : Prop :=
  ∀ s, ∃ a s', x s = .ok a s'

namespace Action.Answers

variable {σ τ α β : Type} {x : Action σ α}

theorem pure (a : α) : Answers (pure a : Action σ α) :=
  fun s => ⟨a, s, rfl⟩

theorem bind {f : α → Action σ β} (hx : Answers x) (hf : ∀ a, Answers (f a)) :
    Answers (x >>= f) := by
  intro s
  obtain ⟨a, s', hrun⟩ := hx s
  rw [bind_ok hrun]
  exact hf a s'

theorem map {f : α → β} (hx : Answers x) : Answers (f <$> x) := by
  intro s
  obtain ⟨a, s', hrun⟩ := hx s
  exact ⟨f a, s', map_ok hrun⟩

theorem zoom {get : τ → σ} {set : σ → τ → τ} (hx : Answers x) :
    Answers (Action.zoom get set x) := by
  intro t
  obtain ⟨a, s, hrun⟩ := hx (get t)
  exact ⟨a, set s t, zoom_ok hrun⟩

end Action.Answers

open FlatMachine.Action (Answers)

/-- A bus on which no access faults. -/
structure Bus.Faultless (σ : Type) [Bus σ] : Prop where
  load : ∀ a, Answers (Bus.load a : Action σ UInt8)
  store : ∀ a b, Answers (Bus.store a b : Action σ Unit)

namespace Bus.Faultless

variable {σ : Type} [Bus σ]

theorem guest (h : Bus.Faultless σ) : Bus.Faultless (Guest σ) :=
  ⟨fun a => (h.load a).zoom, fun a b => (h.store a b).zoom⟩

theorem loadWord (h : Bus.Faultless σ) (a : Address) :
    Answers (Bus.loadWord a : Action σ UInt32) := by
  have hbytes : ∀ n a, Answers (Bus.loadBytes n a : Action σ (List UInt8)) := by
    intro n
    induction n with
    | zero => exact fun _ => .pure []
    | succ n ih =>
        intro a
        exact .bind (h.load a) fun _ => .bind (ih (a + 1)) fun _ => .pure _
  exact .bind (hbytes _ a) fun _ => .pure _

theorem haltOutOfMemory (h : Bus.Faultless σ) :
    Answers (FlatMachine.haltOutOfMemory : Action σ Halted) := by
  have hchars : ∀ cs, Answers (writeChars cs : Action σ Unit) := by
    intro cs
    induction cs with
    | nil => exact .pure ()
    | cons c cs ih => exact .bind (h.store _ c) fun _ => ih
  refine .bind (.bind (hchars _) fun _ => h.store _ newline) fun _ => ?_
  exact .bind (h.store _ 1) fun _ => .pure _

theorem allocate (h : Bus.Faultless σ) (size : UInt32) :
    Answers (Guest.allocate size : Action (Guest σ) _) := by
  have hposition : Answers (Guest.position : Action (Guest σ) Address) := by
    refine .bind (fun g => ⟨g.heap, g, rfl⟩) fun heap => ?_
    split
    · exact .pure _
    · exact .bind (h.guest.loadWord _) fun _ => .pure _
  refine .bind (.bind hposition fun c => .bind (fun g => ⟨(), _, rfl⟩) fun _ =>
    .bind (h.guest.loadWord _) fun memEnd g => ⟨_, _, rfl⟩) fun a? => ?_
  cases a? with
  | some a => exact .pure _
  | none => exact h.guest.haltOutOfMemory.map

end Bus.Faultless

/-- All that a plain request can do: the heap answers or faults, and a complaint
follows where the heap has refused. -/
theorem Guest.allocate_cases {σ : Type} [Bus σ] (n : UInt32) (g : Guest σ) :
    (∃ a g', reserve n g = .ok (some a) g' ∧ allocate n g = .ok (.ok a) g') ∨
    (∃ g' h bus, reserve n g = .ok none g' ∧ haltOutOfMemory g'.bus = .ok h bus ∧
      allocate n g = .ok (.error h) ⟨bus, g'.heap⟩) ∨
    (∃ g' e bus, reserve n g = .ok none g' ∧ haltOutOfMemory g'.bus = .error e bus ∧
      allocate n g = .error e ⟨bus, g'.heap⟩) ∨
    (∃ e g', reserve n g = .error e g' ∧ allocate n g = .error e g') := by
  cases hrun : reserve n g with
  | error e g' => exact .inr (.inr (.inr ⟨e, g', rfl, Action.bind_error hrun⟩))
  | ok a? g' =>
      cases a? with
      | some a => exact .inl ⟨a, g', rfl, allocate_of_granted hrun⟩
      | none =>
          cases hhalt : haltOutOfMemory g'.bus with
          | ok h bus =>
              exact .inr (.inl ⟨g', h, bus, rfl, hhalt, allocate_of_refused hrun hhalt⟩)
          | error e bus =>
              have hlift := onBus_error hhalt g'.heap
              rw [onBus_lifting.haltOutOfMemory] at hlift
              exact .inr (.inr (.inl ⟨g', e, bus, rfl, hhalt,
                (Action.bind_ok hrun).trans (Action.map_error hlift)⟩))

/-! ## Buses that keep a record -/

/-- A bus with a record of the stores it has taken, newest last. -/
structure Watched (σ : Type) where
  bus : σ
  stores : List ByteStore := []

/-- The stores that a complaint about memory makes: the text and a newline at the
sink, and a one at the halt flag. -/
def complaintStores : List ByteStore :=
  (outOfMemory ++ [newline]).map (⟨Register.sink.address, ·⟩) ++
    [⟨Register.haltFlag.address, 1⟩]

namespace Watched

variable {σ α β : Type}

/-- Adds a store to the record. -/
def note (s : ByteStore) : Action (Watched σ) Unit := fun w =>
  .ok () { w with stores := w.stores ++ [s] }

instance [Bus σ] : Bus (Watched σ) where
  load a := Action.zoom bus (fun bus w => { w with bus }) (Bus.load a)
  store a b := do
    Action.zoom bus (fun bus w => { w with bus }) (Bus.store a b)
    note ⟨a, b⟩

/-- An action that puts the given stores on record if it answers. -/
def Records (x : Action (Watched σ) α) (stores : List ByteStore) : Prop :=
  ∀ w a w', x w = .ok a w' → w'.stores = w.stores ++ stores

theorem records_pure (a : α) : Records (pure a : Action (Watched σ) α) [] := by
  intro w a' w' hrun
  cases hrun
  exact (List.append_nil _).symm

theorem records_bind {x : Action (Watched σ) α} {f : α → Action (Watched σ) β}
    {s t : List ByteStore} (hx : Records x s) (hf : ∀ a, Records (f a) t) :
    Records (x >>= f) (s ++ t) := by
  intro w b w' hrun
  cases hfirst : x w with
  | ok a w₁ =>
      rw [Action.bind_ok hfirst] at hrun
      rw [hf a w₁ b w' hrun, hx w a w₁ hfirst, List.append_assoc]
  | error e w₁ =>
      rw [Action.bind_error hfirst] at hrun
      cases hrun

theorem records_note (s : ByteStore) : Records (note (σ := σ) s) [s] := by
  intro w u w' hrun
  cases hrun
  rfl

/-- What happens on the bus itself is not on record. -/
theorem records_zoom (x : Action σ α) :
    Records (Action.zoom bus (fun bus w => { w with bus }) x) [] := by
  intro w a w' hrun
  cases hx : x w.bus with
  | ok a' bus' =>
      rw [Action.zoom_ok hx] at hrun
      cases hrun
      exact (List.append_nil _).symm
  | error e bus' =>
      rw [Action.zoom_error hx] at hrun
      cases hrun

variable [Bus σ]

theorem records_store (a : Address) (b : UInt8) :
    Records (Bus.store a b : Action (Watched σ) Unit) [⟨a, b⟩] :=
  records_bind (records_zoom _) fun _ => records_note _

theorem records_writeChars (cs : List UInt8) :
    Records (writeChars cs : Action (Watched σ) Unit)
      (cs.map (⟨Register.sink.address, ·⟩)) := by
  induction cs with
  | nil => exact records_pure ()
  | cons c cs ih => exact records_bind (records_store _ c) fun _ => ih

theorem records_haltOutOfMemory :
    Records (haltOutOfMemory : Action (Watched σ) Halted) complaintStores := by
  have hcut : outOfMemory.takeWhile (· ≠ 0) = outOfMemory := by decide
  have hline : Records (printLine outOfMemory : Action (Watched σ) Unit)
      ((outOfMemory ++ [newline]).map (⟨Register.sink.address, ·⟩)) := by
    rw [List.map_append, printLine, hcut]
    exact records_bind (records_writeChars _) fun _ => records_store _ newline
  exact records_bind hline fun _ =>
    records_bind (records_store _ 1) fun _ => records_pure _

theorem loads_unrecorded :
    Bus.LoadWithin fun w w' : Watched σ => w'.stores = w.stores where
  refl _ := rfl
  trans _ _ _ h₁ h₂ := Eq.trans h₂ h₁
  load a := by
    intro w
    cases hload : Bus.load a w.bus with
    | ok b bus' =>
        have hrun : Bus.load a w = .ok b { w with bus := bus' } := Action.zoom_ok hload
        rw [Action.final_ok hrun]
    | error e bus' =>
        have hrun : Bus.load a w = .error e { w with bus := bus' } := Action.zoom_error hload
        rw [Action.final_error hrun]

variable {w : Watched σ} {heap : Heap} {n : UInt32} {g : Guest (Watched σ)}

theorem reserve_stores {a? : Option Address} (h : Guest.reserve n ⟨w, heap⟩ = .ok a? g) :
    g.bus.stores = w.stores := by
  have hkept := loads_unrecorded.reserve n ⟨w, heap⟩
  rw [Action.final_ok h] at hkept
  exact hkept

theorem allocate_granted_stores {a : Address}
    (h : Guest.allocate n ⟨w, heap⟩ = .ok (.ok a) g) : g.bus.stores = w.stores := by
  rcases Guest.allocate_cases n ⟨w, heap⟩ with ⟨a', g', hrun, hall⟩ | ⟨_, _, _, _, _, hall⟩ |
    ⟨_, _, _, _, _, hall⟩ | ⟨_, _, _, hall⟩
  · cases h.symm.trans hall
    exact reserve_stores hrun
  all_goals cases h.symm.trans hall

theorem allocate_denied_stores {halted : Halted}
    (h : Guest.allocate n ⟨w, heap⟩ = .ok (.error halted) g) :
    g.bus.stores = w.stores ++ complaintStores := by
  rcases Guest.allocate_cases n ⟨w, heap⟩ with ⟨_, _, _, hall⟩ |
    ⟨g', _, _, hrun, hhalt, hall⟩ | ⟨_, _, _, _, _, hall⟩ | ⟨_, _, _, hall⟩
  · cases h.symm.trans hall
  · cases h.symm.trans hall
    rw [← reserve_stores hrun]
    exact records_haltOutOfMemory _ _ _ hhalt
  · cases h.symm.trans hall
  · cases h.symm.trans hall

end Watched

/-! ## The two requests, side by side -/

namespace Allocator

variable {σ α : Type}

/-- Runs an action of a guest on the bus of an allocator, and leaves the allocator's
own heap alone. -/
def onGuest (x : Action (Guest σ) α) : Action (Guest (Allocator σ)) α :=
  Action.zoom (fun g => ⟨g.bus.bus, g.heap⟩)
    (fun g' g => ⟨{ g.bus with bus := g'.bus }, g'.heap⟩) x

/-- An access takes two steps down to the bus, whichever way it goes. -/
theorem onGuest_onBus (x : Action σ α) :
    onGuest (Guest.onBus x) = Guest.onBus (Allocator.onBus x) := by
  funext g
  cases hx : x g.bus.bus with
  | ok a bus => simp only [onGuest, Action.zoom, Guest.onBus, onBus, hx]
  | error e bus => simp only [onGuest, Action.zoom, Guest.onBus, onBus, hx]

variable [Bus σ]

theorem onBus_lifting : Bus.Lifting (onBus (σ := σ)) :=
  .zoom Allocator.bus (fun bus s => { s with bus }) (fun _ _ => rfl) (fun _ _ _ => rfl)
    (fun _ => rfl) (fun _ => rfl) fun _ _ => rfl

theorem onGuest_lifting : Bus.Lifting (onGuest (σ := σ)) :=
  .zoom _ _ (fun _ _ => rfl) (fun _ _ _ => rfl) (fun _ => rfl) (fun _ => onGuest_onBus _)
    fun _ _ => onGuest_onBus _

theorem onGuest_reserve (n : UInt32) :
    onGuest (σ := σ) (Guest.reserve n) = Guest.reserve n := by
  have hl := onGuest_lifting (σ := σ)
  have hposition : onGuest (σ := σ) Guest.position = Guest.position := by
    simp only [Guest.position, Guest.heapStart, hl.lift_bind]
    congr 1
    funext heap
    split
    · exact hl.lift_pure _
    · rw [hl.lift_bind, hl.loadWord]
      rfl
  simp only [Guest.reserve, hl.lift_bind, hl.loadWord, hposition]
  rfl

section Serving

variable {bus : σ} {heap : Heap} {r : Request} {n : UInt32} {g : Guest σ}

theorem reserve_held {a? : Option Address} (h : Guest.reserve n ⟨bus, heap⟩ = .ok a? g) :
    Guest.reserve n (held ⟨bus, heap, false⟩) = .ok a? ⟨⟨g.bus, heap, true⟩, g.heap⟩ := by
  rw [← onGuest_reserve]
  exact Action.zoom_ok h

theorem alloc_of_granted {a : Address} (hpad : r.padded? = some n)
    (h : Guest.reserve n ⟨bus, heap⟩ = .ok (some a) g) :
    alloc r ⟨bus, heap, false⟩ = .ok (a.alignUp? r.align) ⟨g.bus, g.heap, false⟩ :=
  alloc_granted hpad rfl (reserve_held h)

theorem alloc_of_refused (hpad : r.padded? = some n)
    (h : Guest.reserve n ⟨bus, heap⟩ = .ok none g) :
    alloc r ⟨bus, heap, false⟩ =
      match haltOutOfMemory g.bus with
      | .ok _ bus' => .ok none ⟨bus', g.heap, false⟩
      | .error e bus' => .error e ⟨bus', g.heap, false⟩ := by
  have hlift : haltOutOfMemory (⟨g.bus, g.heap, true⟩ : Allocator σ) =
      onBus haltOutOfMemory ⟨g.bus, g.heap, true⟩ := by
    rw [onBus_lifting.haltOutOfMemory]
  rw [alloc_refused hpad rfl (reserve_held h), hlift]
  cases hhalt : haltOutOfMemory g.bus with
  | ok halted bus' => simp only [onBus, hhalt]
  | error e bus' => simp only [onBus, hhalt]

theorem alloc_of_fault {e : Fault} (hpad : r.padded? = some n)
    (h : Guest.reserve n ⟨bus, heap⟩ = .error e g) :
    alloc r ⟨bus, heap, false⟩ = .error e ⟨g.bus, heap, false⟩ := by
  have hrun : Guest.reserve n (held ⟨bus, heap, false⟩) =
      .error e ⟨⟨g.bus, heap, true⟩, g.heap⟩ := by
    rw [← onGuest_reserve]
    exact Action.zoom_error h
  exact alloc_fault hpad rfl hrun

/-- The carry: a rounded start past the address space takes the padded block with it. -/
theorem cursor_eq_last {a : Address} {p : Nat} (hpad : r.padded? = some n)
    (h : Guest.reserve n ⟨bus, heap⟩ = .ok (some a) g) (hup : p ≤ a.toNat + (r.align - 1))
    (hp : 2 ^ 32 ≤ p) : g.heap.cursor = Address.last := by
  have hadv : heap.Advances (some ⟨a, n⟩) g.heap := by
    rcases Guest.reserve_advancing n ⟨bus, heap⟩ with ⟨a?, g', hok, hadv⟩ | ⟨e, g', herr, -⟩
    · cases h.symm.trans hok
      exact hadv
    · cases h.symm.trans herr
  refine hadv.eq_last_of_stop ?_
  have hlast : Address.last.toNat = 2 ^ 32 - 1 := rfl
  rw [Block.stop, Request.toNat_padded hpad]
  show Address.last.toNat ≤ a.toNat + (r.size + (r.align - 1))
  omega

end Serving

/-- An aligned request on a bus and a heap, told by the plain request for the padded
size on the same two. -/
structure Follows (r : Request) (bus : σ) (heap : Heap) : Prop where
  /-- A block that is granted is rounded up to the next multiple of the alignment. If
  that lies past the last address, the answer is null and the heap is spent. -/
  granted (a : Address) (g : Guest σ) :
    Guest.allocate (UInt32.ofNat (r.size + r.align - 1)) ⟨bus, heap⟩ = .ok (.ok a) g →
      ∃ p, IsLeast {q : Nat | r.align ∣ q ∧ a.toNat ≤ q} p ∧
        alloc r ⟨bus, heap, false⟩ =
          .ok (if p < 2 ^ 32 then some (UInt32.ofNat p) else none) ⟨g.bus, g.heap, false⟩ ∧
        (2 ^ 32 ≤ p → g.heap.cursor = Address.last)
  /-- A refusal is null, with the same complaint. -/
  denied (h : Halted) (g : Guest σ) :
    Guest.allocate (UInt32.ofNat (r.size + r.align - 1)) ⟨bus, heap⟩ = .ok (.error h) g →
      alloc r ⟨bus, heap, false⟩ = .ok none ⟨g.bus, g.heap, false⟩
  /-- A fault of the bus is the same fault. -/
  faulted (e : Fault) (g : Guest σ) :
    Guest.allocate (UInt32.ofNat (r.size + r.align - 1)) ⟨bus, heap⟩ = .error e g →
      ∃ heap', (heap' = heap ∨ heap' = g.heap) ∧
        alloc r ⟨bus, heap, false⟩ = .error e ⟨g.bus, heap', false⟩

theorem padded_eq {r : Request} (halign : r.align < 2 ^ 32)
    (hsize : r.size + r.align - 1 < 2 ^ 32) :
    r.padded? = some (UInt32.ofNat (r.size + r.align - 1)) := by
  have hpos := r.align_pos
  have hspace : Address.space = 2 ^ 32 := rfl
  have hsum : r.size + (r.align - 1) = r.size + r.align - 1 := by omega
  rw [Request.padded?, if_pos ⟨by omega, by omega⟩, hsum]

theorem padded_eq_none {r : Request}
    (hlarge : 2 ^ 32 ≤ r.align ∨ 2 ^ 32 ≤ r.size + r.align - 1) : r.padded? = none := by
  have hpos := r.align_pos
  have hspace : Address.space = 2 ^ 32 := rfl
  exact if_neg (by omega)

theorem alloc_follows {r : Request} (halign : r.align < 2 ^ 32)
    (hsize : r.size + r.align - 1 < 2 ^ 32) (bus : σ) (heap : Heap) : Follows r bus heap := by
  have hpad := padded_eq halign hsize
  rcases Guest.allocate_cases (UInt32.ofNat (r.size + r.align - 1)) ⟨bus, heap⟩ with
    ⟨a, g, hrun, hall⟩ | ⟨g, halted, bus', hrun, hhalt, hall⟩ |
    ⟨g, e, bus', hrun, hhalt, hall⟩ | ⟨e, g, hrun, hall⟩
  · obtain ⟨p, hleast, hup, heq⟩ := Address.alignUp?_eq a r.align_pos
    have halloc := alloc_of_granted hpad hrun
    rw [heq] at halloc
    refine ⟨fun a' g' h => ?_, fun _ _ h => ?_, fun _ _ h => ?_⟩
    · cases h.symm.trans hall
      exact ⟨p, hleast, halloc, cursor_eq_last hpad hrun hup⟩
    · cases h.symm.trans hall
    · cases h.symm.trans hall
  · have halloc := alloc_of_refused hpad hrun
    rw [hhalt] at halloc
    refine ⟨fun _ _ h => ?_, fun _ _ h => ?_, fun _ _ h => ?_⟩
    · cases h.symm.trans hall
    · cases h.symm.trans hall
      exact halloc
    · cases h.symm.trans hall
  · have halloc := alloc_of_refused hpad hrun
    rw [hhalt] at halloc
    refine ⟨fun _ _ h => ?_, fun _ _ h => ?_, fun _ _ h => ?_⟩
    · cases h.symm.trans hall
    · cases h.symm.trans hall
    · cases h.symm.trans hall
      exact ⟨_, .inr rfl, halloc⟩
  · refine ⟨fun _ _ h => ?_, fun _ _ h => ?_, fun _ _ h => ?_⟩
    · cases h.symm.trans hall
    · cases h.symm.trans hall
    · cases h.symm.trans hall
      exact ⟨_, .inl rfl, alloc_of_fault hpad hrun⟩

/-! ## A spent heap -/

theorem alloc_answers_of_faultless (hbus : Bus.Faultless σ) (r : Request) {s : Allocator σ}
    (hfree : s.inUse = false) : ∃ p s', alloc r s = .ok p s' := by
  obtain ⟨bus, heap, inUse⟩ := s
  cases hfree
  by_cases hfits : r.align < 2 ^ 32 ∧ r.size + r.align - 1 < 2 ^ 32
  · have hfollows := alloc_follows hfits.1 hfits.2 bus heap
    obtain ⟨answer, g, hall⟩ := hbus.allocate (UInt32.ofNat (r.size + r.align - 1)) ⟨bus, heap⟩
    cases answer with
    | ok a =>
        obtain ⟨p, -, halloc, -⟩ := hfollows.granted a g hall
        exact ⟨_, _, halloc⟩
    | error h => exact ⟨_, _, hfollows.denied h g hall⟩
  · exact ⟨_, _, alloc_too_large (padded_eq_none (by omega))⟩

theorem call_answers (hbus : Bus.Faultless σ) (x : σ × AllocatorCall) {s : Allocator σ}
    (hfree : s.inUse = false) : ∃ b?, (call x).outcome s = .ok b? := by
  obtain ⟨bus, c⟩ := x
  cases c with
  | alloc r =>
      obtain ⟨p, s', hrun⟩ := alloc_answers_of_faultless hbus r (s := { s with bus }) hfree
      exact ⟨_, Action.outcome_ok (Action.map_ok hrun)⟩
  | dealloc a r => exact ⟨none, rfl⟩

/-- Nothing comes from a heap whose cursor is at the last address, on any bus. -/
theorem history_spent {s : Allocator σ} (hfree : s.inUse = false)
    (hlast : s.heap.cursor = Address.last) {calls : List (σ × AllocatorCall)}
    {e : Except Fault (Option AlignedBlock) × Heap} (he : e ∈ history s calls) :
    (∀ b, e.1 ≠ .ok (some b)) ∧ (Bus.Faultless σ → e.1 = .ok none) := by
  obtain ⟨x, -, s', ⟨hfree', hlast'⟩, rfl⟩ :=
    Session.run_mem (P := fun s' : Allocator σ =>
        s'.inUse = false ∧ s'.heap.cursor = Address.last)
      (fun x _ s' h => by
        obtain ⟨_, hserved⟩ := call_served bus_held x h.1
        exact ⟨hserved.free, hserved.advances.eq_last h.2⟩)
      ⟨hfree, hlast⟩ he
  obtain ⟨y, hserved⟩ := call_served bus_held x hfree'
  have hnone : ∀ b, (call x).outcome s' ≠ .ok (some b) := by
    intro b hb
    obtain ⟨p, rfl, -⟩ := hserved.fits b hb
    cases hserved.advances.none_of_last hlast'
  refine ⟨hnone, fun hbus => ?_⟩
  obtain ⟨b?, hanswer⟩ := call_answers hbus x hfree'
  cases b? with
  | none => exact hanswer
  | some b => exact absurd hanswer (hnone b)

/-- An aligned request that the address space could hold leaves the bus and the heap as
the plain request for the padded size leaves them, on any bus and from any cursor, and
its answer is that of the plain one, rounded up. A plain request makes no store if it
is granted, and those of a complaint if it is refused. Where rounding up leaves the
address space the heap is spent, and a spent heap gives nothing, whatever the bus shows
later. A request that is too large does nothing at all. -/
theorem alloc_refines_allocate (r : Request) :
    (∀ (σ : Type) [Bus σ] (bus : σ) (calls : List (σ × AllocatorCall)),
      (Session.after call calls { bus }).inUse = false) ∧
    (r.align < 2 ^ 32 → r.size + r.align - 1 < 2 ^ 32 →
      (∀ (σ : Type) [Bus σ] (bus : σ) (heap : Heap), Follows r bus heap) ∧
      ∀ (σ : Type) [Bus σ] (w : Watched σ) (heap : Heap) (g : Guest (Watched σ)),
        (∀ a, Guest.allocate (UInt32.ofNat (r.size + r.align - 1)) ⟨w, heap⟩ =
          .ok (.ok a) g → g.bus.stores = w.stores) ∧
        (∀ h, Guest.allocate (UInt32.ofNat (r.size + r.align - 1)) ⟨w, heap⟩ =
          .ok (.error h) g → g.bus.stores = w.stores ++ complaintStores)) ∧
    (∀ (σ : Type) [Bus σ] (bus : σ) (calls : List (σ × AllocatorCall)),
      ∀ e ∈ history ⟨bus, ⟨Address.last⟩, false⟩ calls,
        (∀ b, e.1 ≠ .ok (some b)) ∧ (Bus.Faultless σ → e.1 = .ok none)) ∧
    (2 ^ 32 ≤ r.align ∨ 2 ^ 32 ≤ r.size + r.align - 1 →
      ∀ (σ : Type) [Bus σ] (s : Allocator σ), alloc r s = .ok none s) := by
  refine ⟨?_, ?_, ?_, ?_⟩
  · intro σ _ bus calls
    exact Session.after_keeps (P := fun s : Allocator σ => s.inUse = false)
      (fun x _ => call_free bus_held x) rfl
  · intro halign hsize
    refine ⟨?_, ?_⟩
    · intro σ _ bus heap
      exact alloc_follows halign hsize bus heap
    · intro σ _ w heap g
      exact ⟨fun a => Watched.allocate_granted_stores,
        fun h => Watched.allocate_denied_stores⟩
  · intro σ _ bus calls e he
    exact history_spent rfl rfl he
  · intro hlarge σ _ s
    exact alloc_too_large (padded_eq_none hlarge)

theorem ram_faultless : Bus.Faultless Ram :=
  ⟨fun _ _ => ⟨_, _, rfl⟩, fun _ _ _ => ⟨_, _, rfl⟩⟩

/-- A block of one byte, granted near the end of the address space and lost to its
alignment, a request after it, and one that is a single byte too large. -/
theorem alloc_refines_allocate_lost :
    let ram := ({} : Ram).writeAll 4 [255, 255, 255, 255]
    let r : Request := ⟨1, 16, by decide⟩
    let large : Request := ⟨0xFFFFFFFF, 2, by decide⟩
    r.align < 2 ^ 32 ∧ r.size + r.align - 1 < 2 ^ 32 ∧
      2 ^ 32 ≤ large.size + large.align - 1 ∧
      (∃ g, Guest.allocate 16 ⟨ram, ⟨0xFFFFFFF1⟩⟩ = .ok (.ok 0xFFFFFFF1) g ∧
        alloc r ⟨ram, ⟨0xFFFFFFF1⟩, false⟩ = .ok none ⟨g.bus, ⟨Address.last⟩, false⟩) ∧
      (∀ e ∈ history ⟨ram, ⟨Address.last⟩, false⟩ [(ram, .alloc r)], e.1 = .ok none) ∧
      alloc large { bus := ram } = .ok none { bus := ram } := by
  intro ram r large
  have hanswer : ((Guest.allocate 16).outcome (⟨ram, ⟨0xFFFFFFF1⟩⟩ : Guest Ram)).toOption.map
      Except.toOption = some (some 0xFFFFFFF1) := by decide +kernel
  have hcursor : ((Guest.allocate 16).final (⟨ram, ⟨0xFFFFFFF1⟩⟩ : Guest Ram)).heap.cursor =
      Address.last := by decide +kernel
  obtain ⟨bus, hgrant⟩ : ∃ bus, Guest.allocate 16 (⟨ram, ⟨0xFFFFFFF1⟩⟩ : Guest Ram) =
      .ok (.ok 0xFFFFFFF1) ⟨bus, ⟨Address.last⟩⟩ := by
    cases hrun : Guest.allocate 16 (⟨ram, ⟨0xFFFFFFF1⟩⟩ : Guest Ram) with
    | error e g =>
        rw [Action.outcome_error hrun] at hanswer
        cases hanswer
    | ok answer g =>
        rw [Action.outcome_ok hrun] at hanswer
        rw [Action.final_ok hrun] at hcursor
        obtain ⟨bus, ⟨cursor⟩⟩ := g
        cases hcursor
        cases answer with
        | error h => cases hanswer
        | ok a =>
            cases hanswer
            exact ⟨bus, rfl⟩
  obtain ⟨-, hfits, hspent, -⟩ := alloc_refines_allocate r
  obtain ⟨hfollows, -⟩ := hfits (by decide) (by decide)
  refine ⟨by decide, by decide, by decide, ⟨_, hgrant, ?_⟩, ?_, ?_⟩
  · obtain ⟨p, ⟨⟨hdvd, hle⟩, -⟩, halloc, -⟩ := (hfollows Ram ram _).granted _ _ hgrant
    have hpast : 2 ^ 32 ≤ p := by
      have hdvd' : 16 ∣ p := hdvd
      have hle' : 0xFFFFFFF1 ≤ p := hle
      omega
    rw [if_neg (Nat.not_lt_of_le hpast)] at halloc
    exact halloc
  · intro e he
    exact (hspent Ram ram _ e he).2 ram_faultless
  · exact (alloc_refines_allocate large).2.2.2 (.inr (by decide)) Ram _

end Allocator

end FlatMachine
