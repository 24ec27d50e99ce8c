import FlatMachine.Proofs.Actions
import FlatMachine.Proofs.Words
import Mathlib.Logic.Relation

/-!
# Blocks never overlap, whatever the bus says

The heap trusts its bus for two numbers, the start of the stack on first use and
the end of memory on every call. Here the bus is an adversary: before each call
its contents are replaced by anything at all, its loads may change it or fault,
and nothing ties one answer to the next. The cursor is all that survives from
call to call, and it is enough.

`Heap.Advances` says everything a call can do to the heap. A block is granted
only below some end of memory, so never at the last address, and that is what
makes saturation harmless: a cursor that could not move past a block is pinned
where no block is granted again. The induction over calls is done once, for
`Heap.Reaches`, and each property is then a fact about a single advance.
-/

namespace FlatMachine

/-- A block that a heap granted: its start, and the size that was asked for. -/
structure Block where
  start : Address
  size : UInt32
deriving DecidableEq, Repr

namespace Block

/-- The position right past a block, which may lie past the last address. -/
def stop (b : Block) : Nat :=
  b.start.toNat + b.size.toNat

/-- Whether a position belongs to a block. -/
def Covers (b : Block) (i : Nat) : Prop :=
  b.start.toNat ≤ i ∧ i < b.stop

end Block

/-- A call on a heap. -/
inductive HeapCall where
  | reserve (size : UInt32)
  | allocate (size : UInt32)
  | free (a : Address)
  | remaining
deriving DecidableEq, Repr

/-- What a call left: the block it was granted, if any, and the heap. -/
structure HeapEvent where
  block : Option Block
  heap : Heap
deriving DecidableEq, Repr

namespace HeapCall

variable {σ : Type} [Bus σ]

/-- Makes a call, and answers with the block it is granted. -/
def run : HeapCall → Action (Guest σ) (Option Block)
  | reserve size => do
    let a? ← Guest.reserve size
    pure (a?.map (⟨·, size⟩))
  | allocate size => do
    let outcome ← Guest.allocate size
    pure (outcome.toOption.map (⟨·, size⟩))
  | free a => do
    Guest.free a
    pure none
  | remaining => do
    let _ ← Guest.remaining
    pure none

/-- Makes a call on a bus with the given contents. A call that faults is granted
nothing. -/
def event (c : HeapCall) (bus : σ) (h : Heap) : HeapEvent :=
  match c.run ⟨bus, h⟩ with
  | .ok block g => ⟨block, g.heap⟩
  | .error _ g => ⟨none, g.heap⟩

end HeapCall

/-- Makes calls on one heap, each on a bus with contents of its own. -/
def Heap.history {σ : Type} [Bus σ] : Heap → List (σ × HeapCall) → List HeapEvent
  | _, [] => []
  | h, (bus, c) :: rest => c.event bus h :: history (c.event bus h).heap rest

/-- The blocks that were granted, in order. -/
def HeapEvent.blocks (events : List HeapEvent) : List Block :=
  events.filterMap HeapEvent.block

/-! ## What a single call can do -/

/-- All that a call can do to a heap: nothing, or put the cursor to its first
use, or grant the block at the cursor and move past it. -/
inductive Heap.Advances : Heap → Option Block → Heap → Prop
  | still (h : Heap) : Advances h none h
  | start {h : Heap} {c : Address} (fresh : h.cursor = Address.null)
      (used : c ≠ Address.null) : Advances h none ⟨c⟩
  | grant {h : Heap} {c : Address} (size : UInt32)
      (position : h.cursor = Address.null ∨ h.cursor = c)
      (used : c ≠ Address.null) (below : c.toNat < Address.last.toNat) :
      Advances h (some ⟨c, size⟩) ⟨c.saturatingAdd size⟩

namespace Guest

variable {σ α : Type}

/-- An action that advances the heap, by the block that its answer stands for. An
action that faults is granted nothing. -/
def Advancing (x : Action (Guest σ) α) (block : α → Option Block) : Prop :=
  ∀ g, (∃ a g', x g = .ok a g' ∧ g.heap.Advances (block a) g'.heap) ∨
    (∃ e g', x g = .error e g' ∧ g.heap.Advances none g'.heap)

theorem Advancing.answer {x : Action (Guest σ) α} {block : α → Option Block}
    (hx : Advancing x block) :
    Advancing (x >>= fun a => pure (block a)) id := by
  intro g
  rcases hx g with ⟨a, g', hrun, hadv⟩ | ⟨e, g', hrun, hadv⟩
  · exact .inl ⟨block a, g', Action.bind_ok hrun, hadv⟩
  · exact .inr ⟨e, g', Action.bind_error hrun, hadv⟩

theorem free_advancing (a : Address) :
    Advancing (free (σ := σ) a) fun _ => none :=
  fun g => .inl ⟨(), g, rfl, .still g.heap⟩

theorem onBus_cases (x : Action σ α) (g : Guest σ) :
    (∃ a bus, onBus x g = .ok a ⟨bus, g.heap⟩) ∨
      (∃ e bus, onBus x g = .error e ⟨bus, g.heap⟩) := by
  cases hx : x g.bus with
  | ok a bus => exact .inl ⟨a, bus, onBus_ok hx g.heap⟩
  | error e bus => exact .inr ⟨e, bus, onBus_error hx g.heap⟩

variable [Bus σ]

theorem loadWord_cases (a : Address) (g : Guest σ) :
    (∃ w bus, Bus.loadWord a g = .ok w ⟨bus, g.heap⟩) ∨
      (∃ e bus, Bus.loadWord a g = .error e ⟨bus, g.heap⟩) := by
  rw [← onBus_lifting.loadWord a]
  exact onBus_cases _ g

theorem haltOutOfMemory_cases (g : Guest σ) :
    (∃ h bus, haltOutOfMemory g = .ok h ⟨bus, g.heap⟩) ∨
      (∃ e bus, haltOutOfMemory g = .error e ⟨bus, g.heap⟩) := by
  rw [← onBus_lifting.haltOutOfMemory]
  exact onBus_cases _ g

theorem heapStart_ne_null (stack : Address) :
    stack.saturatingAdd (UInt32.ofNat Word.size) ≠ Address.null := by
  intro h
  have hnat := congrArg UInt32.toNat h
  rw [Address.toNat_saturatingAdd] at hnat
  have hword : (UInt32.ofNat Word.size).toNat = 4 := rfl
  have hnull : Address.null.toNat = 0 := rfl
  have hspace : Address.space = 4294967296 := rfl
  omega

/-- The next block starts at the cursor or, on first use, anywhere but at null. -/
theorem position_cases (g : Guest σ) :
    (∃ c bus, position g = .ok c ⟨bus, g.heap⟩ ∧ c ≠ Address.null ∧
        (g.heap.cursor = Address.null ∨ g.heap.cursor = c)) ∨
      (∃ e bus, position g = .error e ⟨bus, g.heap⟩) := by
  have hget : getHeap g = .ok g.heap g := rfl
  by_cases hused : g.heap.cursor = Address.null
  · have hinit : g.heap.isInitialized = false := by
      rw [Heap.isInitialized, hused]
      rfl
    rcases loadWord_cases Register.stackStart.address g with
      ⟨stack, bus, hload⟩ | ⟨e, bus, hload⟩
    · refine .inl ⟨_, bus, ?_, heapStart_ne_null stack, .inl hused⟩
      rw [position, Action.bind_ok hget, hinit]
      exact Action.bind_ok hload
    · refine .inr ⟨e, bus, ?_⟩
      rw [position, Action.bind_ok hget, hinit]
      exact Action.bind_error hload
  · have hinit : g.heap.isInitialized = true := bne_iff_ne.mpr hused
    refine .inl ⟨g.heap.cursor, g.bus, ?_, hused, .inr rfl⟩
    rw [position, Action.bind_ok hget, hinit]
    rfl

theorem remaining_advancing :
    Advancing (remaining (σ := σ)) fun _ => none := by
  intro g
  rcases position_cases g with ⟨c, bus, hpos, -, -⟩ | ⟨e, bus, hpos⟩
  · rcases loadWord_cases Register.memEnd.address (⟨bus, g.heap⟩ : Guest σ) with
      ⟨memEnd, bus', hload⟩ | ⟨e, bus', hload⟩
    · refine .inl ⟨Address.distanceFrom memEnd c, ⟨bus', g.heap⟩, ?_, .still g.heap⟩
      rw [remaining, Action.bind_ok hpos]
      exact Action.bind_ok hload
    · refine .inr ⟨e, ⟨bus', g.heap⟩, ?_, .still g.heap⟩
      rw [remaining, Action.bind_ok hpos]
      exact Action.bind_error hload
  · refine .inr ⟨e, ⟨bus, g.heap⟩, ?_, .still g.heap⟩
    rw [remaining]
    exact Action.bind_error hpos

theorem reserve_advancing (size : UInt32) :
    Advancing (reserve (σ := σ) size) (Option.map (⟨·, size⟩)) := by
  intro g
  rcases position_cases g with ⟨c, bus, hpos, hused, hcur⟩ | ⟨e, bus, hpos⟩
  · -- From here on the cursor is set, and a refusal or a fault leaves it so.
    have hset : g.heap.Advances none ⟨c⟩ := by
      rcases hcur with hnull | hsame
      · exact .start hnull hused
      · rw [← hsame]
        exact .still g.heap
    have hset' : setHeap ⟨c⟩ (⟨bus, g.heap⟩ : Guest σ) = .ok () ⟨bus, ⟨c⟩⟩ := rfl
    rcases loadWord_cases Register.memEnd.address (⟨bus, ⟨c⟩⟩ : Guest σ) with
      ⟨memEnd, bus', hload⟩ | ⟨e, bus', hload⟩
    · have hrun : reserve size g = grant memEnd size ⟨bus', ⟨c⟩⟩ := by
        rw [reserve, Action.bind_ok hpos, Action.bind_ok hset',
          Action.bind_ok hload]
      rw [hrun]
      by_cases hlt : c < memEnd
      · have hbelow : c.toNat < Address.last.toNat :=
          Nat.lt_of_lt_of_le (UInt32.lt_iff_toNat_lt.mp hlt) (Address.le_last memEnd)
        refine .inl ⟨some c, ⟨bus', ⟨c.saturatingAdd size⟩⟩, ?_,
          .grant size hcur hused hbelow⟩
        simp only [grant, Heap.grant, if_pos hlt]
      · refine .inl ⟨none, ⟨bus', ⟨c⟩⟩, ?_, hset⟩
        simp only [grant, Heap.grant, if_neg hlt]
    · refine .inr ⟨e, ⟨bus', ⟨c⟩⟩, ?_, hset⟩
      rw [reserve, Action.bind_ok hpos, Action.bind_ok hset']
      exact Action.bind_error hload
  · refine .inr ⟨e, ⟨bus, g.heap⟩, ?_, .still g.heap⟩
    rw [reserve]
    exact Action.bind_error hpos

theorem allocate_advancing (size : UInt32) :
    Advancing (allocate (σ := σ) size) fun outcome =>
      outcome.toOption.map (⟨·, size⟩) := by
  intro g
  rcases reserve_advancing size g with ⟨a?, g', hrun, hadv⟩ | ⟨e, g', hrun, hadv⟩
  · cases a? with
    | some a => exact .inl ⟨.ok a, g', allocate_of_granted hrun, hadv⟩
    | none =>
        -- The complaint and the halt go to the bus and leave the heap alone.
        rcases haltOutOfMemory_cases g' with ⟨hd, bus, hhalt⟩ | ⟨e, bus, hhalt⟩
        · refine .inl ⟨.error hd, ⟨bus, g'.heap⟩, ?_, hadv⟩
          rw [allocate, Action.bind_ok hrun]
          exact Action.map_ok hhalt
        · refine .inr ⟨e, ⟨bus, g'.heap⟩, ?_, hadv⟩
          rw [allocate, Action.bind_ok hrun]
          exact Action.map_error hhalt
  · refine .inr ⟨e, g', ?_, hadv⟩
    rw [allocate]
    exact Action.bind_error hrun

end Guest

theorem HeapCall.run_advancing {σ : Type} [Bus σ] (c : HeapCall) :
    Guest.Advancing (c.run (σ := σ)) id := by
  cases c with
  | reserve size => exact (Guest.reserve_advancing size).answer
  | allocate size => exact (Guest.allocate_advancing size).answer
  | free a => exact (Guest.free_advancing a).answer
  | remaining => exact Guest.remaining_advancing.answer

/-- A call advances the heap, on a bus with any contents. -/
theorem HeapCall.event_advances {σ : Type} [Bus σ] (c : HeapCall) (bus : σ)
    (h : Heap) : h.Advances (c.event bus h).block (c.event bus h).heap := by
  rcases c.run_advancing ⟨bus, h⟩ with ⟨block, g, hrun, hadv⟩ | ⟨e, g, hrun, hadv⟩
  · simp only [event, hrun]
    exact hadv
  · simp only [event, hrun]
    exact hadv

/-! ## What every advance keeps -/

namespace Heap

/-- A block that the heap has left behind: the cursor is past it, or stuck at the
last address. -/
def Past (h : Heap) (b : Block) : Prop :=
  h.cursor ≠ Address.null ∧ (b.stop ≤ h.cursor.toNat ∨ h.cursor = Address.last)

namespace Advances

variable {h h' : Heap} {x : Option Block} {b c : Block}

theorem cursor_le (hadv : h.Advances x h') : h.cursor.toNat ≤ h'.cursor.toNat := by
  cases hadv with
  | still => exact Nat.le_refl _
  | start fresh used =>
      rw [fresh]
      exact Nat.zero_le _
  | grant size position used below =>
      rcases position with hnull | hsame
      · rw [hnull]
        exact Nat.zero_le _
      · rw [hsame]
        exact Address.le_saturatingAdd _ size

theorem ne_null (hadv : h.Advances x h') (hn : h.cursor ≠ Address.null) :
    h'.cursor ≠ Address.null := by
  intro hnull
  have hle := hadv.cursor_le
  rw [hnull] at hle
  exact hn (UInt32.toNat_inj.mp (Nat.le_zero.mp hle))

theorem eq_last (hadv : h.Advances x h') (hl : h.cursor = Address.last) :
    h'.cursor = Address.last := by
  have hle := hadv.cursor_le
  rw [hl] at hle
  exact UInt32.toNat_inj.mp (Nat.le_antisymm (Address.le_last _) hle)

/-- Nothing is granted at the last address, whatever the end of memory is. -/
theorem none_of_last (hadv : h.Advances x h') (hl : h.cursor = Address.last) :
    x = none := by
  cases hadv with
  | still => rfl
  | start => rfl
  | grant size position used below =>
      exfalso
      rcases position with hnull | hsame
      · rw [hl] at hnull
        exact absurd hnull (by decide)
      · rw [← hsame, hl] at below
        exact Nat.lt_irrefl _ below

theorem past_granted (hadv : h.Advances (some b) h') : h'.Past b := by
  cases hadv with
  | grant size position used below =>
      rename_i start
      refine ⟨?_, ?_⟩
      · intro hnull
        have hle := Address.le_saturatingAdd start size
        rw [show start.saturatingAdd size = Address.null from hnull] at hle
        exact used (UInt32.toNat_inj.mp (Nat.le_zero.mp hle))
      · rcases Nat.lt_or_ge (start.toNat + size.toNat) Address.space with hlt | hge
        · left
          show start.toNat + size.toNat ≤ (start.saturatingAdd size).toNat
          rw [Address.toNat_saturatingAdd]
          omega
        · right
          apply UInt32.toNat_inj.mp
          rw [Address.toNat_saturatingAdd, Address.toNat_last]
          omega

theorem past_keeps (hadv : h.Advances x h') (hp : h.Past b) : h'.Past b := by
  refine ⟨hadv.ne_null hp.1, ?_⟩
  rcases hp.2 with hle | hl
  · exact .inl (Nat.le_trans hle hadv.cursor_le)
  · exact .inr (hadv.eq_last hl)

theorem start_ne_null (hadv : h.Advances (some b) h') : b.start ≠ Address.null := by
  cases hadv with
  | grant size position used below => exact used

theorem cursor_le_start (hadv : h.Advances (some b) h') :
    h.cursor.toNat ≤ b.start.toNat := by
  cases hadv with
  | grant size position used below =>
      rcases position with hnull | hsame
      · rw [hnull]
        exact Nat.zero_le _
      · exact Nat.le_of_eq (congrArg UInt32.toNat hsame)

/-- The next block starts past every block left behind. -/
theorem stop_le_start (hadv : h.Advances (some c) h') (hp : h.Past b) :
    b.stop ≤ c.start.toNat := by
  rcases hp.2 with hle | hl
  · exact Nat.le_trans hle hadv.cursor_le_start
  · exact absurd (hadv.none_of_last hl) (by simp)

/-- A block that reaches the last address pins the cursor there. -/
theorem eq_last_of_stop (hadv : h.Advances (some b) h')
    (hstop : Address.last.toNat ≤ b.stop) : h'.cursor = Address.last := by
  rcases hadv.past_granted.2 with hle | hl
  · exact UInt32.toNat_inj.mp
      (Nat.le_antisymm (Address.le_last _) (Nat.le_trans hstop hle))
  · exact hl

end Advances

/-! ## Runs of calls -/

/-- The heaps that some calls can lead to. -/
def Reaches : Heap → Heap → Prop :=
  Relation.ReflTransGen fun h h' => ∃ x, h.Advances x h'

/-- What every advance keeps, every run keeps. -/
theorem Reaches.keeps {P : Heap → Prop} {h h' : Heap} (hreach : h.Reaches h')
    (hstep : ∀ {h h' x}, Advances h x h' → P h → P h') (hp : P h) : P h' := by
  induction hreach with
  | refl => exact hp
  | tail _ hadv ih =>
      obtain ⟨x, hadv⟩ := hadv
      exact hstep hadv ih

variable {σ : Type} [Bus σ]

theorem history_reaches {h : Heap} {calls : List (σ × HeapCall)} {e : HeapEvent}
    (he : e ∈ h.history calls) :
    ∃ h₀, h.Reaches h₀ ∧ h₀.Advances e.block e.heap := by
  induction calls generalizing h with
  | nil => cases he
  | cons call calls ih =>
      obtain ⟨bus, c⟩ := call
      rw [history] at he
      have hadv := c.event_advances bus h
      rcases List.mem_cons.mp he with rfl | hmem
      · exact ⟨h, .refl, hadv⟩
      · obtain ⟨h₀, hreach, hlast⟩ := ih hmem
        exact ⟨h₀, .head ⟨_, hadv⟩ hreach, hlast⟩

/-- A relation between an event and all later ones holds throughout a run as soon
as it holds between an advance and any advance that can follow it. -/
theorem history_pairwise {R : HeapEvent → HeapEvent → Prop}
    (hR : ∀ {h h₀ : Heap} {e f : HeapEvent}, h.Advances e.block e.heap →
      e.heap.Reaches h₀ → h₀.Advances f.block f.heap → R e f)
    (h : Heap) (calls : List (σ × HeapCall)) : (h.history calls).Pairwise R := by
  induction calls generalizing h with
  | nil => exact .nil
  | cons call calls ih =>
      obtain ⟨bus, c⟩ := call
      rw [history]
      refine .cons ?_ (ih _)
      intro f hf
      obtain ⟨h₀, hreach, hlast⟩ := history_reaches hf
      exact hR (c.event_advances bus h) hreach hlast

/-- Any calls on one heap, each on a bus with contents of its own: the cursor
only moves up and never returns to null, each block granted lies past all blocks
granted before, and once the cursor is stuck at the last address nothing is
granted again. -/
theorem history_safe (calls : List (σ × HeapCall)) :
    (history {} calls).Pairwise (fun e f =>
      e.heap.cursor ≤ f.heap.cursor ∧
        (e.heap.cursor ≠ Address.null → f.heap.cursor ≠ Address.null)) ∧
    (HeapEvent.blocks (history {} calls)).Pairwise (fun b c =>
      b.start.toNat + b.size.toNat ≤ c.start.toNat ∧
        (∀ i, ¬ (b.Covers i ∧ c.Covers i)) ∧
        (0 < b.size → b.start < c.start)) ∧
    (history {} calls).Pairwise (fun e f =>
      (e.heap.cursor = Address.last → f.block = none) ∧
        ∀ b, e.block = some b → Address.last.toNat ≤ b.stop → f.block = none) := by
  refine ⟨history_pairwise ?_ {} calls, ?_, history_pairwise ?_ {} calls⟩
  · intro h h₀ e f _ hreach hlast
    refine ⟨UInt32.le_iff_toNat_le.mpr ?_, ?_⟩
    · have hle : e.heap.cursor.toNat ≤ h₀.cursor.toNat :=
        hreach.keeps (P := fun h => e.heap.cursor.toNat ≤ h.cursor.toNat)
          (fun hadv hle => Nat.le_trans hle hadv.cursor_le) (Nat.le_refl _)
      exact Nat.le_trans hle hlast.cursor_le
    · intro hused
      exact hlast.ne_null (hreach.keeps (fun hadv => hadv.ne_null) hused)
  · rw [HeapEvent.blocks, List.pairwise_filterMap]
    refine history_pairwise ?_ {} calls
    intro h h₀ e f hfirst hreach hlast b hb c hc
    rw [hb] at hfirst
    rw [hc] at hlast
    have hpast : h₀.Past b :=
      hreach.keeps (fun hadv => hadv.past_keeps) hfirst.past_granted
    have hle : b.start.toNat + b.size.toNat ≤ c.start.toNat :=
      hlast.stop_le_start hpast
    refine ⟨hle, ?_, ?_⟩
    · rintro i ⟨⟨-, hb₂⟩, hc₁, -⟩
      rw [Block.stop] at hb₂
      omega
    · intro hpos
      rw [UInt32.lt_iff_toNat_lt] at hpos ⊢
      have hzero : (0 : UInt32).toNat = 0 := rfl
      omega
  · intro h h₀ e f hfirst hreach hlast
    have hstuck : e.heap.cursor = Address.last → f.block = none := fun hl =>
      hlast.none_of_last (hreach.keeps (fun hadv => hadv.eq_last) hl)
    refine ⟨hstuck, ?_⟩
    intro b hb hstop
    rw [hb] at hfirst
    exact hstuck (hfirst.eq_last_of_stop hstop)

end Heap

end FlatMachine
