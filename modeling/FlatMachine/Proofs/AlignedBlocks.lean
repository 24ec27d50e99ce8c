import FlatMachine.Heap.Reentrant
import FlatMachine.Proofs.Effects
import FlatMachine.Proofs.HeapSafety

/-!
# Aligned blocks never overlap

An aligned block lies in a padded one, and the padded ones come off a plain heap,
which never grants an address twice. So the only arithmetic here is that rounding
up stays within the padding. As before, the bus is an adversary: its contents are
replaced between any two calls.

What is new is that the heap is shared while a request is being served. Serving
works on a copy, and the bus might reach the original meanwhile. `Allocator.Held`
says that it finds the allocator in use and is refused, so that the copy can be
published over it. A bus that knows nothing of the allocator satisfies this for
want of a way in, and one that calls back because of the refusal.
-/

namespace FlatMachine

open FlatMachine.Action (Within)

/-! ## Rounding up -/

theorem Request.align_pos (r : Request) : 0 < r.align := by
  obtain ⟨⟨k, -, halign⟩, -⟩ := r.valid
  rw [halign, Nat.one_shiftLeft]
  exact Nat.two_pow_pos k

theorem Request.toNat_padded {r : Request} {n : UInt32} (h : r.padded? = some n) :
    n.toNat = r.size + (r.align - 1) := by
  rw [padded?] at h
  split at h
  · next hfits =>
      cases h
      exact Address.toNat_ofNat_of_lt hfits.2
  · cases h

theorem Address.alignUp?_bounds {a p : Address} {align : Nat} (hpos : 0 < align)
    (h : a.alignUp? align = some p) :
    align ∣ p.toNat ∧ a.toNat ≤ p.toNat ∧ p.toNat ≤ a.toNat + (align - 1) := by
  simp only [alignUp?] at h
  split at h
  · next hlt =>
      cases h
      rw [toNat_ofNat_of_lt hlt]
      have hsplit := Nat.div_add_mod' (a.toNat + (align - 1)) align
      have hrest := Nat.mod_lt (a.toNat + (align - 1)) hpos
      exact ⟨Nat.dvd_mul_left _ _, by omega, by omega⟩
  · cases h

theorem Address.alignUp?_isSome {a : Address} {align : Nat}
    (h : a.toNat + (align - 1) < Address.space) : ∃ p, a.alignUp? align = some p := by
  have hle := Nat.div_mul_le_self (a.toNat + (align - 1)) align
  exact ⟨_, if_pos (Nat.lt_of_le_of_lt hle h)⟩

/-- A block that was asked for with an alignment. -/
structure AlignedBlock where
  start : Address
  request : Request

namespace AlignedBlock

/-- The position right past a block, which may lie past the last address. -/
def stop (b : AlignedBlock) : Nat :=
  b.start.toNat + b.request.size

/-- A block that lies where it was asked to, in a block that was taken for it. -/
structure FitsIn (b : AlignedBlock) (p : Block) : Prop where
  aligned : b.request.align ∣ b.start.toNat
  start_le : p.start.toNat ≤ b.start.toNat
  stop_le : b.stop ≤ p.stop

theorem fitsIn_padded {r : Request} {n : UInt32} {a p : Address}
    (hpad : r.padded? = some n) (h : a.alignUp? r.align = some p) :
    FitsIn ⟨p, r⟩ ⟨a, n⟩ := by
  obtain ⟨hdvd, hle, hup⟩ := Address.alignUp?_bounds r.align_pos h
  refine ⟨hdvd, hle, ?_⟩
  rw [stop, Block.stop, Request.toNat_padded hpad]
  show p.toNat + r.size ≤ a.toNat + (r.size + (r.align - 1))
  omega

end AlignedBlock

/-! ## Runs of calls -/

/-- A call on an allocator. -/
inductive AllocatorCall where
  | alloc (r : Request)
  | dealloc (a : Address) (r : Request)

namespace Allocator

variable {σ α : Type}

/-- What a request works on: the allocator, held, and a copy of its heap. -/
def held (s : Allocator σ) : Guest (Allocator σ) :=
  ⟨{ s with inUse := true }, s.heap⟩

section Calls

variable [Bus (Allocator σ)]

/-- Makes a call on a bus with contents of its own, and answers with the block that
it gets. -/
def call : σ × AllocatorCall → Action (Allocator σ) (Option AlignedBlock)
  | (bus, .alloc r) => fun s => (Option.map (⟨·, r⟩) <$> alloc r) { s with bus }
  | (bus, .dealloc a r) => fun s => ((fun _ => none) <$> dealloc a r) { s with bus }

/-- What each call got, with the heap it left. -/
def history (s : Allocator σ) (calls : List (σ × AllocatorCall)) :
    List (Except Fault (Option AlignedBlock) × Heap) :=
  (Session.run call heap calls s).1

/-- Where the bus says that the heap starts. -/
def heapStart? (s : Allocator σ) : Option Address :=
  (Guest.heapStart.outcome s.held).toOption

/-- Where the bus said that the heap starts, at the call that put it to use. -/
def firstStart? : Allocator σ → List (σ × AllocatorCall) → Option Address
  | _, [] => none
  | s, x :: rest =>
    if ((call x).final s).heap.isInitialized then
      heapStart? { s with bus := x.1 }
    else
      firstStart? ((call x).final s) rest

end Calls

/-! ## Serving a request -/

section Parts

variable {x : Action (Allocator σ) α} {y : Action (Guest (Allocator σ)) α}
  {s s' : Allocator σ} {g : Guest (Allocator σ)} {a : α} {e : Fault}

theorem holding_ok (h : x { s with inUse := true } = .ok a s') :
    holding x s = .ok a { s' with inUse := false } := by
  simp only [holding, h]

theorem holding_error (h : x { s with inUse := true } = .error e s') :
    holding x s = .error e { s' with inUse := false } := by
  simp only [holding, h]

theorem onHeap_ok (h : y ⟨s, s.heap⟩ = .ok a g) :
    onHeap y s = .ok a { g.bus with heap := g.heap } := by
  simp only [onHeap, h]

theorem onHeap_error (h : y ⟨s, s.heap⟩ = .error e g) :
    onHeap y s = .error e g.bus := by
  simp only [onHeap, h]

end Parts

section Request

variable [Bus (Allocator σ)] {r : Request} {n : UInt32} {s : Allocator σ}
  {g : Guest (Allocator σ)}

theorem alloc_too_large (hpad : r.padded? = none) : alloc r s = .ok none s := by
  rw [alloc, hpad]
  rfl

theorem alloc_in_use (hused : s.inUse = true) : alloc r s = .ok none s := by
  cases hpad : r.padded? with
  | none => exact alloc_too_large hpad
  | some n =>
      have huse : isInUse s = .ok true s := by rw [isInUse, hused]
      rw [alloc, hpad]
      exact Action.bind_ok huse

/-- What is left of a request once nothing stands in its way. -/
theorem alloc_held (hpad : r.padded? = some n) (hfree : s.inUse = false) :
    alloc r s = holding (do
      match ← onHeap (Guest.reserve n) with
      | some a => pure (a.alignUp? r.align)
      | none =>
        let _ ← haltOutOfMemory
        pure none) s := by
  have huse : isInUse s = .ok false s := by rw [isInUse, hfree]
  rw [alloc, hpad]
  exact Action.bind_ok huse

theorem alloc_fault {e : Fault} (hpad : r.padded? = some n) (hfree : s.inUse = false)
    (hrun : Guest.reserve n s.held = .error e g) :
    alloc r s = .error e { g.bus with inUse := false } := by
  rw [alloc_held hpad hfree]
  exact holding_error (Action.bind_error (onHeap_error hrun))

theorem alloc_granted {a : Address} (hpad : r.padded? = some n) (hfree : s.inUse = false)
    (hrun : Guest.reserve n s.held = .ok (some a) g) :
    alloc r s = .ok (a.alignUp? r.align) ⟨g.bus.bus, g.heap, false⟩ := by
  rw [alloc_held hpad hfree, holding, Action.bind_ok (onHeap_ok hrun)]
  rfl

theorem alloc_refused (hpad : r.padded? = some n) (hfree : s.inUse = false)
    (hrun : Guest.reserve n s.held = .ok none g) :
    alloc r s =
      match haltOutOfMemory { g.bus with heap := g.heap } with
      | .ok _ s' => .ok none { s' with inUse := false }
      | .error e s' => .error e { s' with inUse := false } := by
  rw [alloc_held hpad hfree]
  cases hhalt : haltOutOfMemory { g.bus with heap := g.heap } with
  | ok h s' => exact holding_ok ((Action.bind_ok (onHeap_ok hrun)).trans (Action.bind_ok hhalt))
  | error e s' =>
      exact holding_error ((Action.bind_ok (onHeap_ok hrun)).trans (Action.bind_error hhalt))

theorem alloc_answers {a : Address} (hpad : r.padded? = some n) (hfree : s.inUse = false)
    (hgrant : (Guest.reserve n).outcome s.held = .ok (some a))
    (hspace : a.toNat + (r.align - 1) < Address.space) :
    ∃ p, (alloc r).outcome s = .ok (some p) := by
  cases hrun : Guest.reserve n s.held with
  | ok a? g =>
      rw [Action.outcome_ok hrun] at hgrant
      cases hgrant
      obtain ⟨p, hp⟩ := Address.alignUp?_isSome hspace
      rw [Action.outcome_ok (alloc_granted hpad hfree hrun), hp]
      exact ⟨p, rfl⟩
  | error e g =>
      rw [Action.outcome_error hrun] at hgrant
      cases hgrant

end Request

/-! ## A bus cannot reach a heap in use -/

/-- Nothing gets at the heap of an allocator in use. -/
def Held (s s' : Allocator σ) : Prop :=
  s.inUse = true → s'.inUse = true ∧ s'.heap = s.heap

theorem held_refl (s : Allocator σ) : Held s s :=
  fun h => ⟨h, rfl⟩

theorem held_trans (s t u : Allocator σ) (h₁ : Held s t) (h₂ : Held t u) : Held s u := by
  intro h
  obtain ⟨huse, hheap⟩ := h₁ h
  exact ⟨(h₂ huse).1, (h₂ huse).2.trans hheap⟩

theorem onBus_held (x : Action σ α) : Within Held (onBus x) := by
  intro s hused
  cases hx : x s.bus with
  | ok a bus => simp only [Action.final, onBus, hx, hused, and_self]
  | error e bus => simp only [Action.final, onBus, hx, hused, and_self]

theorem bus_held [Bus σ] : Bus.AccessWithin (Held (σ := σ)) :=
  ⟨held_refl, held_trans, fun _ => onBus_held _, fun _ _ => onBus_held _⟩

end Allocator

namespace CallingRam

/-- The nested request is turned away, so all it does is to be noted. -/
theorem callBack_in_use (x : Access) {s : Allocator CallingRam} (hused : s.inUse = true) :
    ∃ bus, callBack x s = .ok () { s with bus } := by
  have hnested : Allocator.alloc s.bus.nested ⟨s.bus.ram, s.heap, s.inUse⟩ =
      .ok none ⟨s.bus.ram, s.heap, s.inUse⟩ := Allocator.alloc_in_use hused
  simp only [callBack, hnested]
  exact ⟨_, rfl⟩

theorem load_held (a : Address) :
    Within Allocator.Held (Bus.load a : Action (Allocator CallingRam) UInt8) := by
  intro s hused
  obtain ⟨bus, hcall⟩ := callBack_in_use ⟨.load, a, s.bus.ram.read a⟩ hused
  have hload : Bus.load a s = .ok (s.bus.ram.read a) { s with bus } := by
    simp only [Bus.load, hcall]
  rw [Action.final_ok hload]
  exact ⟨hused, rfl⟩

theorem store_held (a : Address) (b : UInt8) :
    Within Allocator.Held (Bus.store a b : Action (Allocator CallingRam) Unit) := by
  intro s hused
  obtain ⟨bus, hcall⟩ := callBack_in_use ⟨.store, a, b⟩
    (s := { s with bus := { s.bus with ram := s.bus.ram.write a b } }) hused
  have hstore : Bus.store a b s = .ok () { s with bus } := hcall
  rw [Action.final_ok hstore]
  exact ⟨hused, rfl⟩

theorem bus_held : Bus.AccessWithin (Allocator.Held (σ := CallingRam)) :=
  ⟨Allocator.held_refl, Allocator.held_trans, load_held, store_held⟩

end CallingRam

/-! ## What a call can do -/

/-- A heap that is put to use starts where the bus says, and its first block does. -/
theorem Guest.reserve_first {σ : Type} [Bus σ] {g g' : Guest σ} {n : UInt32}
    {a? : Option Address} (hfresh : g.heap.cursor = Address.null)
    (hrun : reserve n g = .ok a? g') :
    ∃ start, heapStart.outcome g = .ok start ∧ start.toNat ≤ g'.heap.cursor.toNat ∧
      ∀ a, a? = some a → a = start := by
  have hpos : position g = heapStart g := by
    have hget : getHeap g = .ok g.heap g := rfl
    rw [position, Action.bind_ok hget, Heap.isInitialized, hfresh]
    rfl
  cases hstart : heapStart g with
  | error e g₁ =>
      rw [reserve, Action.bind_error (hpos.trans hstart)] at hrun
      cases hrun
  | ok start g₁ =>
      have hset : setHeap ⟨start⟩ g₁ = .ok () ⟨g₁.bus, ⟨start⟩⟩ := rfl
      rw [reserve, Action.bind_ok (hpos.trans hstart), Action.bind_ok hset] at hrun
      rcases loadWord_cases Register.memEnd.address (⟨g₁.bus, ⟨start⟩⟩ : Guest σ) with
        ⟨memEnd, bus, hload⟩ | ⟨e, bus, hload⟩
      · rw [Action.bind_ok hload] at hrun
        refine ⟨start, Action.outcome_ok hstart, ?_⟩
        by_cases hlt : start < memEnd
        · simp only [grant, Heap.grant, if_pos hlt] at hrun
          cases hrun
          exact ⟨Address.le_saturatingAdd start n, fun a h => (Option.some.inj h).symm⟩
        · simp only [grant, Heap.grant, if_neg hlt] at hrun
          cases hrun
          exact ⟨Nat.le_refl _, by simp⟩
      · rw [Action.bind_error hload] at hrun
        cases hrun

namespace Allocator

variable {σ : Type} [Bus (Allocator σ)]

/-- All that a call can do to an allocator: its heap advances, the answer lies in the
block that was taken off it, and a heap that is put to use starts where the bus says. -/
structure Served (s : Allocator σ) (answer : Except Fault (Option AlignedBlock))
    (x : Option Block) (s' : Allocator σ) : Prop where
  free : s'.inUse = false
  advances : s.heap.Advances x s'.heap
  fits : ∀ b, answer = .ok (some b) → ∃ p, x = some p ∧ b.FitsIn p
  first : s.heap.cursor = Address.null → s'.heap.cursor ≠ Address.null →
    ∃ start, s.heapStart? = some start ∧ start.toNat ≤ s'.heap.cursor.toNat ∧
      ∀ p, x = some p → p.start = start

/-- A call that leaves the heap alone serves nothing. -/
theorem Served.still {s s' : Allocator σ} {answer : Except Fault (Option AlignedBlock)}
    (hfree : s'.inUse = false) (hheap : s'.heap = s.heap)
    (hnone : ∀ b, answer ≠ .ok (some b)) : s.Served answer none s' where
  free := hfree
  advances := by
    rw [hheap]
    exact .still s.heap
  fits b hb := absurd hb (hnone b)
  first hfresh hused := by
    rw [hheap] at hused
    exact absurd hfresh hused

/-- A request that the heap was asked about takes what the heap gave. -/
theorem Served.reserved {s s' : Allocator σ} {n : UInt32} {a? : Option Address}
    {g : Guest (Allocator σ)} {answer : Except Fault (Option AlignedBlock)}
    (hrun : Guest.reserve n s.held = .ok a? g) (hfree : s'.inUse = false)
    (hheap : s'.heap = g.heap)
    (hfits : ∀ b, answer = .ok (some b) → ∃ a, a? = some a ∧ b.FitsIn ⟨a, n⟩) :
    s.Served answer (a?.map (⟨·, n⟩)) s' where
  free := hfree
  advances := by
    rw [hheap]
    rcases Guest.reserve_advancing n s.held with ⟨a, g', hok, hadv⟩ | ⟨e, g', herr, -⟩
    · rw [hrun] at hok
      cases hok
      exact hadv
    · rw [hrun] at herr
      cases herr
  fits b hb := by
    obtain ⟨a, rfl, hin⟩ := hfits b hb
    exact ⟨_, rfl, hin⟩
  first hfresh _ := by
    obtain ⟨start, hstart, hle, hfirst⟩ := Guest.reserve_first hfresh hrun
    refine ⟨start, ?_, by rw [hheap]; exact hle, fun p hp => ?_⟩
    · rw [heapStart?, hstart]
      rfl
    · obtain ⟨a, ha, rfl⟩ := Option.map_eq_some_iff.mp hp
      exact hfirst a ha

section Runs

variable (hbus : Bus.AccessWithin (Held (σ := σ)))
include hbus

theorem alloc_served (r : Request) {s : Allocator σ} (hfree : s.inUse = false) :
    ∃ x, s.Served ((Option.map (⟨·, r⟩) <$> alloc r).outcome s) x ((alloc r).final s) := by
  cases hpad : r.padded? with
  | none =>
      have hrun := alloc_too_large (s := s) hpad
      rw [Action.final_ok hrun, Action.outcome_ok (Action.map_ok hrun)]
      exact ⟨none, .still hfree rfl (by simp)⟩
  | some n =>
      have hheld := hbus.loads.reserve n s.held rfl
      cases hrun : Guest.reserve n s.held with
      | error e g =>
          -- The copy is lost, and the original is as it was.
          rw [Action.final_error hrun] at hheld
          have hfault := alloc_fault hpad hfree hrun
          rw [Action.final_error hfault, Action.outcome_error (Action.map_error hfault)]
          exact ⟨none, .still rfl hheld.2 (by simp)⟩
      | ok a? g =>
          rw [Action.final_ok hrun] at hheld
          cases a? with
          | some a =>
              have hgrant := alloc_granted hpad hfree hrun
              rw [Action.final_ok hgrant, Action.outcome_ok (Action.map_ok hgrant)]
              refine ⟨_, .reserved hrun rfl rfl fun b hb => ⟨a, rfl, ?_⟩⟩
              obtain ⟨p, hp, rfl⟩ := Option.map_eq_some_iff.mp (Except.ok.inj hb)
              exact AlignedBlock.fitsIn_padded hpad hp
          | none =>
              -- The complaint goes over the bus when the copy is already published.
              have hhalt := hbus.output.haltOutOfMemory { g.bus with heap := g.heap } hheld.1
              have hrefuse := alloc_refused hpad hfree hrun
              cases hend : haltOutOfMemory { g.bus with heap := g.heap } with
              | ok h s' =>
                  rw [Action.final_ok hend] at hhalt
                  rw [hend] at hrefuse
                  rw [Action.final_ok hrefuse, Action.outcome_ok (Action.map_ok hrefuse)]
                  exact ⟨_, .reserved hrun rfl hhalt.2 (by simp)⟩
              | error e s' =>
                  rw [Action.final_error hend] at hhalt
                  rw [hend] at hrefuse
                  rw [Action.final_error hrefuse,
                    Action.outcome_error (Action.map_error hrefuse)]
                  exact ⟨_, .reserved hrun rfl hhalt.2 (by simp)⟩

theorem call_served (x : σ × AllocatorCall) {s : Allocator σ} (hfree : s.inUse = false) :
    ∃ y, ({ s with bus := x.1 } : Allocator σ).Served ((call x).outcome s) y
      ((call x).final s) := by
  obtain ⟨bus, c⟩ := x
  cases c with
  | alloc r =>
      obtain ⟨y, hserved⟩ := alloc_served hbus r (s := { s with bus }) hfree
      rw [← Action.final_map] at hserved
      exact ⟨y, hserved⟩
  | dealloc a r => exact ⟨none, .still hfree rfl (fun b hb => nomatch hb)⟩

/-! ## What a run of calls can do -/

theorem call_free (x : σ × AllocatorCall) (s : Allocator σ) (hfree : s.inUse = false) :
    ((call x).final s).inUse = false := by
  obtain ⟨y, hserved⟩ := call_served hbus x hfree
  exact hserved.free

theorem call_reaches (x : σ × AllocatorCall) (s₀ s : Allocator σ) (hfree : s.inUse = false)
    (hreach : s₀.heap.Reaches s.heap) : s₀.heap.Reaches ((call x).final s).heap := by
  obtain ⟨y, hserved⟩ := call_served hbus x hfree
  exact hreach.tail ⟨y, hserved.advances⟩

/-- A block lies past every block that was answered before it. -/
theorem history_apart {s : Allocator σ} (hfree : s.inUse = false)
    (calls : List (σ × AllocatorCall)) :
    (history s calls).Pairwise fun e f => ∀ b c, e.1 = .ok (some b) →
      f.1 = .ok (some c) → b.stop ≤ c.start.toNat := by
  refine Session.run_pairwise (G := fun s s' => s.heap.Reaches s'.heap)
    (fun _ => .refl) (call_free hbus) (call_reaches hbus) ?_ calls hfree
  intro x y s s' hs hs' hreach b c hb hc
  obtain ⟨_, hfirst⟩ := call_served hbus x hs
  obtain ⟨_, hlast⟩ := call_served hbus y hs'
  obtain ⟨p, rfl, hin⟩ := hfirst.fits b hb
  obtain ⟨q, rfl, hin'⟩ := hlast.fits c hc
  have hpast : s'.heap.Past p :=
    hreach.keeps (fun hadv => hadv.past_keeps) hfirst.advances.past_granted
  calc b.stop ≤ p.stop := hin.stop_le
    _ ≤ q.start.toNat := hlast.advances.stop_le_start hpast
    _ ≤ c.start.toNat := hin'.start_le

theorem call_past {x : σ × AllocatorCall} {s : Allocator σ} (hfree : s.inUse = false)
    {b : AlignedBlock} (hb : (call x).outcome s = .ok (some b)) :
    s.heap.cursor.toNat ≤ b.start.toNat := by
  obtain ⟨_, hserved⟩ := call_served hbus x hfree
  obtain ⟨p, rfl, hin⟩ := hserved.fits b hb
  exact Nat.le_trans hserved.advances.cursor_le_start hin.start_le

theorem history_started {s : Allocator σ} {calls : List (σ × AllocatorCall)}
    (hfree : s.inUse = false) (hfresh : s.heap.cursor = Address.null)
    {e : Except Fault (Option AlignedBlock) × Heap} (he : e ∈ history s calls)
    {b : AlignedBlock} (hb : e.1 = .ok (some b)) :
    ∃ start, s.firstStart? calls = some start ∧ start ≤ b.start := by
  induction calls generalizing s with
  | nil => cases he
  | cons x calls ih =>
      obtain ⟨y, hserved⟩ := call_served hbus x hfree
      rw [history, Session.run_cons] at he
      by_cases hused : ((call x).final s).heap.cursor = Address.null
      · have hinit : ((call x).final s).heap.isInitialized = false := by
          rw [Heap.isInitialized, hused]
          rfl
        rcases List.mem_cons.mp he with rfl | hrest
        · obtain ⟨p, rfl, -⟩ := hserved.fits b hb
          exact absurd hused hserved.advances.past_granted.1
        · rw [firstStart?, hinit]
          exact ih hserved.free hused hrest
      · have hinit : ((call x).final s).heap.isInitialized = true := bne_iff_ne.mpr hused
        obtain ⟨start, hstart, hle, hfirst⟩ := hserved.first hfresh hused
        refine ⟨start, ?_, UInt32.le_iff_toNat_le.mpr ?_⟩
        · rw [firstStart?, if_pos hinit]
          exact hstart
        rcases List.mem_cons.mp he with rfl | hrest
        · obtain ⟨p, rfl, hin⟩ := hserved.fits b hb
          rw [← hfirst p rfl]
          exact hin.start_le
        · -- From here on the cursor is at the start or past it.
          obtain ⟨z, -, s', ⟨hfree', hle'⟩, rfl⟩ :=
            Session.run_mem (P := fun s' : Allocator σ => s'.inUse = false ∧
                start.toNat ≤ s'.heap.cursor.toNat)
              (fun z _ s' h => by
                obtain ⟨_, hz⟩ := call_served hbus z h.1
                exact ⟨hz.free, Nat.le_trans h.2 hz.advances.cursor_le⟩)
              ⟨hserved.free, hle⟩ hrest
          exact Nat.le_trans hle' (call_past hbus hfree' hb)

/-- What a block is good for, with the heap that was left when it was answered. -/
theorem history_placed {s : Allocator σ} {calls : List (σ × AllocatorCall)}
    (hfree : s.inUse = false) {e : Except Fault (Option AlignedBlock) × Heap}
    (he : e ∈ history s calls) {b : AlignedBlock} (hb : e.1 = .ok (some b)) :
    b.request.align ∣ b.start.toNat ∧ b.start ≠ Address.null ∧
      (b.stop < Address.space ∨ e.2.cursor = Address.last) := by
  obtain ⟨x, -, s', hfree', rfl⟩ :=
    Session.run_mem (fun x _ => call_free hbus x) hfree he
  obtain ⟨_, hserved⟩ := call_served hbus x hfree'
  obtain ⟨p, rfl, hin⟩ := hserved.fits b hb
  refine ⟨hin.aligned, ?_, ?_⟩
  · intro hnull
    have hle := hin.start_le
    rw [hnull] at hle
    exact hserved.advances.start_ne_null (UInt32.toNat_inj.mp (Nat.le_zero.mp hle))
  · rcases hserved.advances.past_granted.2 with hle | hlast
    · left
      calc b.stop ≤ p.stop := hin.stop_le
        _ ≤ _ := hle
        _ < Address.space := Address.toNat_lt_space _
    · exact .inr hlast

end Runs

/-- An allocator whose blocks can be relied on, over a bus that shows anything at all
from call to call. -/
structure Sound (σ : Type) [Bus (Allocator σ)] : Prop where
  /-- A block is aligned and not null, it lies past the start that the bus showed at
  first use, and in the address space unless the heap is spent with it. -/
  placed (bus : σ) (calls : List (σ × AllocatorCall)) :
    ∀ e ∈ history { bus } calls, ∀ b, e.1 = .ok (some b) →
      b.request.align ∣ b.start.toNat ∧ b.start ≠ Address.null ∧
      (∃ start, firstStart? { bus } calls = some start ∧ start ≤ b.start) ∧
      (b.start.toNat + b.request.size < Address.space ∨ e.2.cursor = Address.last)
  /-- A block lies past all blocks that were answered before. -/
  apart (bus : σ) (calls : List (σ × AllocatorCall)) :
    (history { bus } calls).Pairwise fun e f =>
      ∀ b c, e.1 = .ok (some b) → f.1 = .ok (some c) →
        b.start.toNat + b.request.size ≤ c.start.toNat
  /-- A padded block that the heap grants is answered with, if it can be aligned. -/
  answers (s : Allocator σ) (r : Request) (n : UInt32) (a : Address) :
    r.padded? = some n → s.inUse = false →
      (Guest.reserve n).outcome s.held = .ok (some a) →
      a.toNat + (r.align - 1) < Address.space → ∃ p, (alloc r).outcome s = .ok (some p)

theorem sound_of_held (hbus : Bus.AccessWithin (Held (σ := σ))) : Sound σ where
  placed bus calls e he b hb := by
    obtain ⟨haligned, hnonnull, hspace⟩ := history_placed hbus (s := { bus }) rfl he hb
    exact ⟨haligned, hnonnull, history_started hbus rfl rfl he hb, hspace⟩
  apart bus calls := history_apart hbus (s := { bus }) rfl calls
  answers _ _ _ _ := alloc_answers

/-- The blocks of an allocator can be relied on, over any bus that knows nothing of it
and over one that calls back, and giving a block back changes nothing. -/
theorem aligned_blocks_sound :
    (∀ (σ : Type) [Bus σ], Sound σ) ∧ Sound CallingRam ∧
      ∀ (σ : Type) (a : Address) (r : Request) (s : Allocator σ),
        dealloc a r s = .ok () s := by
  refine ⟨?_, ?_, ?_⟩
  · intro σ _
    exact sound_of_held bus_held
  · exact sound_of_held CallingRam.bus_held
  · intro σ a r s
    rfl

-- The second block is moved up to a multiple of 16, the third request finds the heap
-- spent, and the last one is served because the end of memory has moved.
example :
    let ram := (({} : Ram).writeAll 8 [0, 1, 0, 0]).writeAll 4 [24, 1, 0, 0]
    let small : Request := ⟨3, 1, by decide⟩
    let calls : List (Ram × AllocatorCall) :=
      [(ram, .alloc small), (ram, .alloc ⟨8, 16, by decide⟩), (ram, .dealloc 260 small),
        (ram, .alloc small),
        (ram.writeAll 4 [255, 255, 255, 255], .alloc ⟨0xFFFFFF00, 4, by decide⟩)]
    (history { bus := ram } calls).map
        (fun e => (e.1.toOption.join.map AlignedBlock.start, e.2.cursor)) =
      [(some 260, 263), (some 272, 286), (none, 286), (none, 286),
        (some 288, Address.last)] := by
  decide +kernel

end Allocator

end FlatMachine
