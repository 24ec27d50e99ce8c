import FlatMachine.Proofs.Effects
import FlatMachine.Proofs.StoreTrace
import FlatMachine.Session.Machine

/-!
# What no step does to a machine

Three relations, each with one argument about a single store. Memory keeps its
size, whoever writes to it. A halted machine is still: only its count of dropped
stores moves. And output is quiet: it can change the sink and the halt flag, and
it can stop the machine, but it never starts one again.

The first holds of the host's steps and of whole scripts too, so every machine
that can come up has the size it was set up with. `Machine.Driven` names those
machines.
-/

namespace FlatMachine

open FlatMachine.Action (Within)

namespace Machine

variable {m m' : Machine}

theorem final_load (a : Address) (m : Machine) : (Bus.load a).final m = m :=
  Within.reading (R := fun m m' => m' = m) (fun _ => rfl) _ m

theorem final_store (a : Address) (b : UInt8) (m : Machine) :
    (Bus.store a b).final m = m.attempt ⟨a, b⟩ := by
  cases hstatus : m.status with
  | halted => rw [Action.final_ok (store_halted hstatus), attempt_halted hstatus]
  | running =>
      rcases Nat.lt_or_ge a.toNat m.memory.size with hin | hout
      · rw [Action.final_ok (store_running hstatus hin), attempt_inside hstatus hin]
      · rw [Action.final_error (store_outside hstatus hout), attempt_outside hstatus hout]

/-- Two machines with memories of the same size. -/
def SameSize (m m' : Machine) : Prop :=
  m'.memory.size = m.memory.size

/-- Nothing has moved but the count of dropped stores, if the machine had halted. -/
def Still (m m' : Machine) : Prop :=
  m.status = .halted → m' = { m with droppedStores := m'.droppedStores }

/-- Nothing has moved in memory but the sink and the halt flag, and a machine that
runs has been running all along. -/
structure Quiet (m m' : Machine) : Prop where
  size : m'.memory.size = m.memory.size
  bytes : ∀ i : Nat, i ≠ 0 → i ≠ 12 → m'.memory.bytes[i]? = m.memory.bytes[i]?
  status : m'.status = .running → m.status = .running

theorem sameSize_access : Bus.AccessWithin SameSize where
  refl _ := rfl
  trans _ _ _ h₁ h₂ := Eq.trans h₂ h₁
  load a := by
    intro m
    rw [final_load]
    rfl
  store a b := by
    intro m
    rw [final_store]
    exact size_attempt

theorem Still.status (h : m.Still m') (hm : m.status = .halted) : m'.status = .halted := by
  rw [h hm]
  exact hm

theorem still_access : Bus.AccessWithin Still where
  refl _ _ := rfl
  trans m m' m'' h₁ h₂ hm := by
    have h₃ := h₂ (h₁.status hm)
    rw [h₁ hm] at h₃
    exact h₃
  load _ := .reading (fun _ _ => rfl) _
  store a b := by
    intro m hm
    rw [final_store, attempt_halted hm]

theorem quiet_refl (m : Machine) : m.Quiet m :=
  ⟨rfl, fun _ _ _ => rfl, id⟩

/-- A store at one of the two output registers is quiet. -/
theorem quiet_attempt {s : ByteStore} (hs : s.address.toNat = 0 ∨ s.address.toNat = 12)
    (m : Machine) : m.Quiet (m.attempt s) := by
  cases hstatus : m.status with
  | halted =>
      rw [attempt_halted hstatus]
      exact ⟨rfl, fun _ _ _ => rfl, id⟩
  | running =>
      refine ⟨size_attempt, fun i h₀ h₁₂ => ?_, fun _ => hstatus⟩
      have hne : s.address.toNat ≠ i := by omega
      simp only [attempt_bytes hstatus, if_neg hne, Option.map_id']

theorem quiet_output : Bus.OutputWithin Quiet where
  refl := quiet_refl
  trans _ _ _ h₁ h₂ :=
    ⟨h₂.size.trans h₁.size, fun i h₀ h₁₂ => (h₂.bytes i h₀ h₁₂).trans (h₁.bytes i h₀ h₁₂),
      fun h => h₁.status (h₂.status h)⟩
  load _ := .reading quiet_refl _
  sink b := by
    intro m
    rw [final_store]
    exact quiet_attempt (.inl rfl) m
  flag := by
    intro m
    rw [final_store]
    exact quiet_attempt (.inr rfl) m

/-- A halted machine that stays still is quiet. -/
theorem Still.quiet (h : m.Still m') (hm : m.status = .halted) : m.Quiet m' := by
  rw [h hm]
  refine ⟨rfl, fun _ _ _ => rfl, fun hrun => ?_⟩
  rw [show m.status = .running from hrun] at hm
  cases hm

end Machine

/-! ## Scripts -/

namespace Script

variable {R : Machine → Machine → Prop} (h : Bus.AccessWithin R)

namespace Progress

/-- The machine of a script moves within a relation. -/
def Over (R : Machine → Machine → Prop) (p p' : Progress) : Prop :=
  R p.guest.bus p'.guest.bus

theorem onGuest_over {α : Type} {x : Action (Guest Machine) α}
    (hx : Within (Guest.Over R) x) : Within (Over R) (onGuest x) := by
  intro p
  have hg := hx p.guest
  cases hrun : x p.guest <;> simp only [Action.final, onGuest, hrun] at hg ⊢ <;> exact hg

include h

theorem over_refl (p : Progress) : Over R p p :=
  h.refl p.guest.bus

theorem over_trans (p q r : Progress) (h₁ : Over R p q) (h₂ : Over R q r) : Over R p r :=
  h.trans _ _ _ h₁ h₂

theorem sendMessages_over (messages : List String) :
    Within (Over R) (sendMessages messages) := by
  induction messages with
  | nil => exact .pure (over_refl h) _
  | cons s rest ih =>
      refine .bind (over_trans h) (onGuest_over (h.storeString _)) fun stored => ?_
      cases stored with
      | error e => exact .pure (over_refl h) _
      | ok a =>
          refine .bind (over_trans h) (over_refl h) fun _ => ?_
          refine .bind (over_trans h) (onGuest_over (h.over.output.printLineAt a)) fun _ => ?_
          exact .bind (over_trans h) (over_refl h) fun _ => ih

theorem takeBlocks_over (sizes : List UInt32) : Within (Over R) (takeBlocks sizes) := by
  induction sizes with
  | nil => exact .pure (over_refl h) _
  | cons size rest ih =>
      refine .bind (over_trans h) (onGuest_over (h.allocate size)) fun granted => ?_
      cases granted with
      | error e => exact .pure (over_refl h) _
      | ok a => exact .bind (over_trans h) (over_refl h) fun _ => ih

end Progress

include h

theorem run_within (s : Script) : Within R s.run := by
  intro m
  have hsteps : Within (Progress.Over R) s.steps := by
    refine .bind (Progress.over_trans h) (Progress.sendMessages_over h _) fun sent => ?_
    cases sent with
    | error e => exact .pure (Progress.over_refl h) _
    | ok u => exact Progress.takeBlocks_over h _
  have hrun := hsteps ⟨⟨m, {}⟩, #[], {}⟩
  cases hs : s.steps ⟨⟨m, {}⟩, #[], {}⟩ <;>
    simp only [Action.final, run, hs] at hrun ⊢ <;> exact hrun

end Script

/-! ## Sessions with a machine -/

namespace MachineSession

variable {α : Type}

theorem final_onGuest (x : Action (Guest Machine) α) (s : MachineSession) :
    (onGuest x).final s = ⟨x.final s.guest, s.path⟩ := by
  cases hrun : x s.guest <;> simp only [Action.final, onGuest, hrun]

theorem final_onMachine (x : Action Machine α) (s : MachineSession) :
    (onMachine x).final s = ⟨⟨x.final s.machine, s.guest.heap⟩, s.path⟩ := by
  rw [onMachine, final_onGuest, Guest.final_onBus]
  rfl

theorem final_onPath (x : Action PrintPath α) (s : MachineSession) :
    (onPath x).final s = ⟨s.guest, x.final s.path⟩ := by
  cases hrun : x s.path <;> simp only [Action.final, onPath, hrun]

/-- The guest of a session moves within a relation. -/
def Over (R : Guest Machine → Guest Machine → Prop) (s s' : MachineSession) : Prop :=
  R s.guest s'.guest

end MachineSession

/-- A step of the host that writes nothing to memory. -/
def MachineStep.isReading : MachineStep → Bool
  | list _ | view _ | dump _ _ | console | takeConsole | registers | inspect
  | listFromMemory => true
  | guest _ | write _ _ | writeString _ _ | runScript _ => false

namespace MachineStep

open MachineSession

/-- A step that writes nothing can at most take the console. -/
theorem run_reading {R : Machine → Machine → Prop} (hrefl : ∀ m, R m m)
    (hconsole : ∀ m, R m { m with console := #[] }) {t : MachineStep}
    (ht : t.isReading = true) : Within (Over (Guest.Beside R)) t.run := by
  have hsame : ∀ s, Over (Guest.Beside R) s s := fun s => ⟨hrefl s.machine, rfl⟩
  cases t with
  | list t =>
      intro s
      rw [run, final_onPath]
      exact hsame s
  | view v => exact .reading hsame _
  | dump start stop => exact .reading hsame _
  | console =>
      rw [run]
      exact .reading hsame _
  | takeConsole =>
      refine Within.map ?_
      intro s
      rw [final_onMachine]
      exact ⟨hconsole s.machine, rfl⟩
  | registers => exact .reading hsame _
  | inspect =>
      rw [run]
      exact .reading hsame _
  | listFromMemory => exact hsame
  | guest t => cases ht
  | write a bs => cases ht
  | writeString a bs => cases ht
  | runScript s => cases ht

end MachineStep

namespace Memory

/-- Writing to memory keeps its size, whether or not it all fits. -/
def SameSize (m m' : Memory) : Prop :=
  m'.size = m.size

theorem sameSize_trans (m m' m'' : Memory) (h₁ : m.SameSize m') (h₂ : m'.SameSize m'') :
    m.SameSize m'' :=
  Eq.trans h₂ h₁

theorem store_sameSize (a : Address) (b : UInt8) : Within SameSize (store a b) := by
  intro m
  rcases Nat.lt_or_ge a.toNat m.size with hin | hout
  · rw [Action.final_ok (store_of_lt hin)]
    exact size_overwrite m a [b]
  · rw [Action.final_error (store_of_le hout)]
    rfl

theorem write_sameSize (a : Address) (bs : List UInt8) : Within SameSize (write a bs) := by
  intro m
  rcases Nat.lt_or_ge m.size (a.toNat + bs.length) with hpast | hfit
  · rw [Action.final_error (write_of_lt hpast)]
    rfl
  · rw [Action.final_ok (write_of_le hfit)]
    exact size_overwrite m a bs

theorem writeString_sameSize (a : Address) (bs : List UInt8) :
    Within SameSize (writeString a bs) :=
  .bind sameSize_trans (write_sameSize a bs) fun _ => store_sameSize _ 0

end Memory

theorem Machine.onMemory_sameSize {α : Type} {x : Action Memory α}
    (hx : Within Memory.SameSize x) : Within Machine.SameSize (Machine.onMemory x) := by
  intro m
  have hsize := hx m.memory
  cases hrun : x m.memory <;>
    simp only [Action.final, Machine.onMemory, hrun] at hsize ⊢ <;> exact hsize

namespace MachineStep

open MachineSession

/-- Memory keeps its size in every step, the guest's and the host's. -/
theorem run_sameSize (t : MachineStep) :
    Within (Over (Guest.Over Machine.SameSize)) t.run := by
  have hsession : ∀ {α : Type} {x : Action Machine α}, Within Machine.SameSize x →
      Within (Over (Guest.Over Machine.SameSize)) (onMachine x) := by
    intro α x hx s
    rw [final_onMachine]
    exact hx s.machine
  cases ht : t.isReading with
  | true =>
      refine (run_reading (R := Machine.SameSize) ?_ ?_ ht).mono fun _ _ h => h.1
      · exact fun _ => rfl
      · exact fun _ => rfl
  | false =>
      cases t with
      | guest t =>
          intro s
          rw [run, final_onGuest]
          exact Machine.sameSize_access.guestStep t s.guest
      | write a bs => exact (hsession (Machine.onMemory_sameSize (Memory.write_sameSize a bs))).map
      | writeString a bs =>
          exact (hsession (Machine.onMemory_sameSize (Memory.writeString_sameSize a bs))).map
      | runScript s => exact (hsession (Script.run_within Machine.sameSize_access s)).map
      | _ => cases ht

end MachineStep

/-- The machines that can come up: set up, and then driven by any steps. -/
def Machine.Driven (m : Machine) : Prop :=
  ∃ (m₀ : Machine) (steps : List MachineStep), m₀.Fresh ∧
    m = (Session.after MachineStep.run steps (.ofMachine m₀)).machine

theorem Machine.Driven.size {m : Machine} (h : m.Driven) :
    256 ≤ m.memory.size ∧ m.memory.size ≤ 2 ^ 24 := by
  obtain ⟨m₀, steps, hfresh, rfl⟩ := h
  obtain ⟨stackStart, memEnd, hready⟩ := hfresh.ready
  have hsize : (Session.after MachineStep.run steps (.ofMachine m₀)).machine.memory.size =
      m₀.memory.size :=
    Session.after_keeps (P := fun s : MachineSession =>
      s.machine.memory.size = m₀.memory.size)
      (fun (t : MachineStep) _ s hs => (t.run_sameSize s).trans hs) rfl
  rw [hsize]
  exact ⟨hready.size_ge, hready.size_eq ▸ hready.size_le⟩

end FlatMachine
