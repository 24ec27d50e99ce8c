import FlatMachine.Heap.Guest

/-!
# Running actions, on a bus and on what carries it

An action is opened one bind at a time: if its first part answers, the rest runs
on the storage that the answer left, and if it faults, that is the end.

Everything a guest program does is written once for any bus, and a guest is a bus
because it carries one. So each of these programs exists twice, on the bus and on
the guest, and the two must be the same program. `Bus.Lifting` says what carrying
a bus has to respect, and one short induction per program then moves it across.
After that a proof about a guest is a proof about its bus. Whatever carries a bus as
a part of itself respects all of it but the accesses, by `Bus.Lifting.zoom`.
-/

namespace FlatMachine

namespace Action

variable {σ α β : Type} {s s' : σ} {x : Action σ α}

theorem bind_ok {f : α → Action σ β} {a : α} (h : x s = .ok a s') :
    (x >>= f) s = f a s' := by
  show EStateM.bind x f s = f a s'
  rw [EStateM.bind, h]

theorem bind_error {f : α → Action σ β} {e : Fault} (h : x s = .error e s') :
    (x >>= f) s = .error e s' := by
  show EStateM.bind x f s = .error e s'
  rw [EStateM.bind, h]

theorem map_ok {f : α → β} {a : α} (h : x s = .ok a s') :
    (f <$> x) s = .ok (f a) s' := by
  show EStateM.map f x s = .ok (f a) s'
  rw [EStateM.map, h]

theorem map_error {f : α → β} {e : Fault} (h : x s = .error e s') :
    (f <$> x) s = .error e s' := by
  show EStateM.map f x s = .error e s'
  rw [EStateM.map, h]

/-- Runs an action on a part of the storage, and puts back what it leaves. -/
def zoom {τ : Type} (get : τ → σ) (set : σ → τ → τ) (x : Action σ α) : Action τ α :=
  fun t =>
    match x (get t) with
    | .ok a s => .ok a (set s t)
    | .error e s => .error e (set s t)

section Zoom

variable {τ : Type} {get : τ → σ} {set : σ → τ → τ} {t : τ}

theorem zoom_ok {a : α} (h : x (get t) = .ok a s) : zoom get set x t = .ok a (set s t) := by
  rw [zoom, h]

theorem zoom_error {e : Fault} (h : x (get t) = .error e s) :
    zoom get set x t = .error e (set s t) := by
  rw [zoom, h]

end Zoom

end Action

/-- A way to run the actions of one bus on another that respects everything a
program for a bus is made of. -/
structure Bus.Lifting {σ τ : Type} [Bus σ] [Bus τ]
    (lift : {α : Type} → Action σ α → Action τ α) : Prop where
  lift_pure {α : Type} (a : α) : lift (pure a) = pure a
  lift_bind {α β : Type} (x : Action σ α) (f : α → Action σ β) :
    lift (x >>= f) = lift x >>= fun a => lift (f a)
  lift_throw {α : Type} (e : Fault) : lift (throw e : Action σ α) = throw e
  lift_load (a : Address) : lift (Bus.load a) = Bus.load a
  lift_store (a : Address) (b : UInt8) : lift (Bus.store a b) = Bus.store a b

/-- A part can be taken out and put back, and the last one put back is there. -/
theorem Bus.Lifting.zoom {σ τ : Type} [Bus σ] [Bus τ] (get : τ → σ) (set : σ → τ → τ)
    (hget : ∀ s t, get (set s t) = s) (hset : ∀ s s' t, set s (set s' t) = set s t)
    (hself : ∀ t, set (get t) t = t)
    (hload : ∀ a, Action.zoom get set (Bus.load a) = Bus.load a)
    (hstore : ∀ a b, Action.zoom get set (Bus.store a b) = Bus.store a b) :
    Bus.Lifting (Action.zoom get set) where
  lift_pure a := by
    funext t
    exact congrArg (EStateM.Result.ok a) (hself t)
  lift_bind x f := by
    funext t
    cases hx : x (get t) with
    | ok a s =>
        rw [Action.bind_ok (Action.zoom_ok hx)]
        simp only [Action.zoom, Action.bind_ok hx, hget, hset]
    | error e s =>
        rw [Action.bind_error (Action.zoom_error hx), Action.zoom_error (Action.bind_error hx)]
  lift_throw e := by
    funext t
    exact congrArg (EStateM.Result.error e) (hself t)
  lift_load := hload
  lift_store := hstore

namespace Bus.Lifting

variable {σ τ : Type} [Bus σ] [Bus τ]
  {lift : {α : Type} → Action σ α → Action τ α} (hl : Bus.Lifting lift)
include hl

theorem loadBytes (n : Nat) (a : Address) :
    lift (Bus.loadBytes n a) = Bus.loadBytes n a := by
  induction n generalizing a with
  | zero => exact hl.lift_pure []
  | succ n ih =>
      simp only [Bus.loadBytes, hl.lift_bind, hl.lift_load, hl.lift_pure, ih]

theorem storeBytes (a : Address) (bs : List UInt8) :
    lift (Bus.storeBytes a bs) = Bus.storeBytes a bs := by
  induction bs generalizing a with
  | nil => exact hl.lift_pure ()
  | cons b bs ih => simp only [Bus.storeBytes, hl.lift_bind, hl.lift_store, ih]

theorem loadWord (a : Address) : lift (Bus.loadWord a) = Bus.loadWord a := by
  simp only [Bus.loadWord, hl.lift_bind, hl.lift_pure, hl.loadBytes]

theorem writeChars (cs : List UInt8) :
    lift (FlatMachine.writeChars cs) = FlatMachine.writeChars cs := by
  induction cs with
  | nil => exact hl.lift_pure ()
  | cons c cs ih =>
      simp only [FlatMachine.writeChars, writeChar, hl.lift_bind,
        hl.lift_store, ih]

theorem printLine (s : List UInt8) :
    lift (FlatMachine.printLine s) = FlatMachine.printLine s := by
  simp only [FlatMachine.printLine, writeChar, hl.lift_bind, hl.lift_store,
    hl.writeChars]

theorem writeStringFrom (n : Nat) (a : Address) :
    lift (FlatMachine.writeStringFrom n a) =
      FlatMachine.writeStringFrom n a := by
  induction n generalizing a with
  | zero => exact hl.lift_throw .endless
  | succ n ih =>
      simp only [FlatMachine.writeStringFrom, hl.lift_bind, hl.lift_load]
      congr 1
      funext c
      split
      · exact hl.lift_pure ()
      · simp only [writeChar, hl.lift_bind, hl.lift_store, ih]

theorem printLineAt (a : Address) :
    lift (FlatMachine.printLineAt a) = FlatMachine.printLineAt a := by
  simp only [FlatMachine.printLineAt, writeChar, hl.lift_bind, hl.lift_store,
    hl.writeStringFrom]

theorem halt : lift FlatMachine.halt = FlatMachine.halt := by
  simp only [FlatMachine.halt, hl.lift_bind, hl.lift_store, hl.lift_pure]

theorem haltOutOfMemory :
    lift FlatMachine.haltOutOfMemory = FlatMachine.haltOutOfMemory := by
  simp only [FlatMachine.haltOutOfMemory, hl.lift_bind, hl.printLine, hl.halt]

end Bus.Lifting

namespace Guest

variable {σ α : Type}

theorem onBus_ok {x : Action σ α} {bus bus' : σ} {a : α}
    (h : x bus = .ok a bus') (heap : Heap) :
    onBus x ⟨bus, heap⟩ = .ok a ⟨bus', heap⟩ := by
  simp only [onBus, h]

theorem onBus_error {x : Action σ α} {bus bus' : σ} {e : Fault}
    (h : x bus = .error e bus') (heap : Heap) :
    onBus x ⟨bus, heap⟩ = .error e ⟨bus', heap⟩ := by
  simp only [onBus, h]

/-- A guest runs the programs of its bus. -/
theorem onBus_lifting [Bus σ] : Bus.Lifting (onBus (σ := σ)) :=
  .zoom Guest.bus (fun bus g => { g with bus }) (fun _ _ => rfl) (fun _ _ _ => rfl)
    (fun _ => rfl) (fun _ => rfl) fun _ _ => rfl

section Requests

variable [Bus σ] {bus bus' : σ} {g g' : Guest σ} {size : UInt32} {halted : Halted}

theorem haltOutOfMemory_ok (h : haltOutOfMemory bus = .ok halted bus') (heap : Heap) :
    haltOutOfMemory (⟨bus, heap⟩ : Guest σ) = .ok halted ⟨bus', heap⟩ := by
  rw [← onBus_lifting.haltOutOfMemory]
  exact onBus_ok h heap

theorem allocate_of_granted {a : Address} (h : reserve size g = .ok (some a) g') :
    allocate size g = .ok (.ok a) g' :=
  Action.bind_ok h

theorem allocate_of_refused (h : reserve size g = .ok none g')
    (hhalt : haltOutOfMemory g'.bus = .ok halted bus') :
    allocate size g = .ok (.error halted) ⟨bus', g'.heap⟩ := by
  rw [allocate, Action.bind_ok h]
  exact Action.map_ok (haltOutOfMemory_ok hhalt g'.heap)

end Requests

end Guest

end FlatMachine
