import FlatMachine.Proofs.Actions
import FlatMachine.Session.Guest

/-!
# What an action leaves alone

Many questions about a run are not about its answers. They ask what cannot have
changed, whatever was printed and wherever it broke off. Such a question is a
relation between the storage before and the storage after, and if the relation
composes, it is enough to look at single accesses: every program for a bus is
made of loads and stores, and a fault in the middle only cuts the program short.

`Bus.LoadWithin` asks for loads only, all that the heap itself does to a bus.
`Bus.OutputWithin` asks for stores at the two output registers too, which is what
printing and halting need, and `Bus.AccessWithin` for every store, and then covers
every step of a guest. Each program is opened once here, so that a later frame
argument is about one access.
-/

namespace FlatMachine

namespace Action

variable {σ α β : Type} {s s' : σ} {x : Action σ α}

/-- The storage that an action leaves, whether it answers or faults. -/
def final (x : Action σ α) (s : σ) : σ :=
  match x s with
  | .ok _ s' => s'
  | .error _ s' => s'

/-- What an action answers, or the fault it ends in. -/
def outcome (x : Action σ α) (s : σ) : Except Fault α :=
  match x s with
  | .ok a _ => .ok a
  | .error e _ => .error e

theorem final_ok {a : α} (h : x s = .ok a s') : x.final s = s' := by
  rw [final, h]

theorem final_error {e : Fault} (h : x s = .error e s') : x.final s = s' := by
  rw [final, h]

theorem outcome_ok {a : α} (h : x s = .ok a s') : x.outcome s = .ok a := by
  rw [outcome, h]

theorem outcome_error {e : Fault} (h : x s = .error e s') : x.outcome s = .error e := by
  rw [outcome, h]

theorem final_map (f : α → β) (x : Action σ α) (s : σ) :
    (f <$> x).final s = x.final s := by
  cases hrun : x s with
  | ok a s' => rw [final_ok (map_ok hrun), final_ok hrun]
  | error e s' => rw [final_error (map_error hrun), final_error hrun]

theorem final_bind_pure (f : α → β) (x : Action σ α) (s : σ) :
    Action.final (x >>= fun a => pure (f a)) s = x.final s := by
  cases hrun : x s with
  | ok a s' =>
      have hbind : (x >>= fun a => pure (f a)) s = .ok (f a) s' := bind_ok hrun
      rw [final_ok hbind, final_ok hrun]
  | error e s' => rw [final_error (bind_error hrun), final_error hrun]

/-- An action that takes every storage to a related one. -/
def Within (R : σ → σ → Prop) (x : Action σ α) : Prop :=
  ∀ s, R s (x.final s)

namespace Within

variable {R S : σ → σ → Prop}

theorem mono (hx : Within R x) (h : ∀ s t, R s t → S s t) : Within S x :=
  fun s => h s _ (hx s)

theorem pure (hrefl : ∀ s, R s s) (a : α) : Within R (pure a : Action σ α) :=
  hrefl

theorem throw (hrefl : ∀ s, R s s) (e : Fault) : Within R (throw e : Action σ α) :=
  hrefl

theorem reading (hrefl : ∀ s, R s s) (f : σ → Except Fault α) :
    Within R (Action.reading f) := by
  intro s
  cases hf : f s <;> simp only [final, Action.reading, hf] <;> exact hrefl s

theorem bind {f : α → Action σ β} (htrans : ∀ s t u, R s t → R t u → R s u)
    (hx : Within R x) (hf : ∀ a, Within R (f a)) : Within R (x >>= f) := by
  intro s
  have hfirst := hx s
  cases hrun : x s with
  | ok a s' =>
      have hrest : (x >>= f).final s = (f a).final s' := by
        simp only [final, bind_ok hrun]
      rw [final_ok hrun] at hfirst
      rw [hrest]
      exact htrans _ _ _ hfirst (hf a s')
  | error e s' =>
      rw [final_error hrun] at hfirst
      rw [final_error (bind_error hrun)]
      exact hfirst

theorem map {f : α → β} (hx : Within R x) : Within R (f <$> x) := by
  intro s
  rw [final_map]
  exact hx s

end Within

end Action

open FlatMachine.Action (Within)

/-! ## Programs for a bus -/

namespace Bus

variable {σ : Type} [Bus σ]

/-- A relation that composes and that loads respect. -/
structure LoadWithin (R : σ → σ → Prop) : Prop where
  refl : ∀ s, R s s
  trans : ∀ s t u, R s t → R t u → R s u
  load : ∀ a, Within R (Bus.load a)

/-- A relation that composes and that loads and output respect. -/
structure OutputWithin (R : σ → σ → Prop) : Prop where
  refl : ∀ s, R s s
  trans : ∀ s t u, R s t → R t u → R s u
  load : ∀ a, Within R (Bus.load a)
  sink : ∀ b, Within R (Bus.store Register.sink.address b)
  flag : Within R (Bus.store Register.haltFlag.address 1)

/-- A relation that composes and that every access respects. -/
structure AccessWithin (R : σ → σ → Prop) : Prop where
  refl : ∀ s, R s s
  trans : ∀ s t u, R s t → R t u → R s u
  load : ∀ a, Within R (Bus.load a)
  store : ∀ a b, Within R (Bus.store a b)

namespace LoadWithin

variable {R : σ → σ → Prop} (h : LoadWithin R)
include h

theorem loadBytes (n : Nat) (a : Address) : Within R (Bus.loadBytes n a) := by
  induction n generalizing a with
  | zero => exact .pure h.refl []
  | succ n ih =>
      exact .bind h.trans (h.load a) fun _ =>
        .bind h.trans (ih (a + 1)) fun _ => .pure h.refl _

theorem loadWord (a : Address) : Within R (Bus.loadWord a) :=
  .bind h.trans (h.loadBytes _ a) fun _ => .pure h.refl _

end LoadWithin

namespace OutputWithin

variable {R : σ → σ → Prop} (h : OutputWithin R)
include h

theorem loads : LoadWithin R :=
  ⟨h.refl, h.trans, h.load⟩

theorem writeChars (cs : List UInt8) : Within R (FlatMachine.writeChars cs) := by
  induction cs with
  | nil => exact .pure h.refl ()
  | cons c cs ih => exact .bind h.trans (h.sink c) fun _ => ih

theorem printLine (s : List UInt8) : Within R (FlatMachine.printLine s) :=
  .bind h.trans (h.writeChars _) fun _ => h.sink newline

theorem writeStringFrom (n : Nat) (a : Address) :
    Within R (FlatMachine.writeStringFrom n a) := by
  induction n generalizing a with
  | zero => exact .throw h.refl .endless
  | succ n ih =>
      refine .bind h.trans (h.load a) fun c => ?_
      split
      · exact .pure h.refl ()
      · exact .bind h.trans (h.sink c) fun _ => ih (a + 1)

theorem printLineAt (a : Address) : Within R (FlatMachine.printLineAt a) :=
  .bind h.trans (h.writeStringFrom _ a) fun _ => h.sink newline

theorem halt : Within R FlatMachine.halt :=
  .bind h.trans h.flag fun _ => .pure h.refl _

theorem haltOutOfMemory : Within R FlatMachine.haltOutOfMemory :=
  .bind h.trans (h.printLine _) fun _ => h.halt

end OutputWithin

namespace AccessWithin

variable {R : σ → σ → Prop} (h : AccessWithin R)
include h

theorem output : OutputWithin R :=
  ⟨h.refl, h.trans, h.load, h.store _, h.store _ 1⟩

theorem loads : LoadWithin R :=
  h.output.loads

theorem storeBytes (a : Address) (bs : List UInt8) :
    Within R (Bus.storeBytes a bs) := by
  induction bs generalizing a with
  | nil => exact .pure h.refl ()
  | cons b bs ih => exact .bind h.trans (h.store a b) fun _ => ih (a + 1)

theorem accessStep (t : AccessStep) : Within R t.run := by
  cases t with
  | load a => exact .bind h.trans (h.load a) fun _ => .pure h.refl _
  | loadWord a => exact .bind h.trans (h.loads.loadWord a) fun _ => .pure h.refl _
  | store a b => exact .bind h.trans (h.store a b) fun _ => .pure h.refl _
  | storeWord a w => exact .bind h.trans (h.storeBytes a _) fun _ => .pure h.refl _

end AccessWithin

end Bus

/-! ## Guests -/

namespace Guest

variable {σ α : Type}

/-- The bus moves within a relation, and the heap may move too. -/
def Over (R : σ → σ → Prop) (g g' : Guest σ) : Prop :=
  R g.bus g'.bus

/-- The bus moves within a relation, and the heap stays. -/
def Beside (R : σ → σ → Prop) (g g' : Guest σ) : Prop :=
  R g.bus g'.bus ∧ g'.heap = g.heap

theorem final_onBus (x : Action σ α) (g : Guest σ) :
    (onBus x).final g = ⟨x.final g.bus, g.heap⟩ := by
  cases hx : x g.bus with
  | ok a bus => rw [Action.final_ok (onBus_ok hx g.heap), Action.final_ok hx]
  | error e bus => rw [Action.final_error (onBus_error hx g.heap), Action.final_error hx]

theorem onBus_beside {R : σ → σ → Prop} {x : Action σ α} (hx : Within R x) :
    Within (Beside R) (onBus x) := by
  intro g
  rw [final_onBus]
  exact ⟨hx g.bus, rfl⟩

end Guest

namespace Bus

variable {σ : Type} [Bus σ] {R : σ → σ → Prop}

theorem LoadWithin.beside (h : LoadWithin R) : LoadWithin (Guest.Beside R) where
  refl g := ⟨h.refl g.bus, rfl⟩
  trans _ _ _ h₁ h₂ := ⟨h.trans _ _ _ h₁.1 h₂.1, h₂.2.trans h₁.2⟩
  load a := Guest.onBus_beside (h.load a)

theorem LoadWithin.over (h : LoadWithin R) : LoadWithin (Guest.Over R) where
  refl g := h.refl g.bus
  trans _ _ _ h₁ h₂ := h.trans _ _ _ h₁ h₂
  load a := (h.beside.load a).mono fun _ _ hb => hb.1

theorem OutputWithin.beside (h : OutputWithin R) : OutputWithin (Guest.Beside R) where
  refl := h.loads.beside.refl
  trans := h.loads.beside.trans
  load := h.loads.beside.load
  sink b := Guest.onBus_beside (h.sink b)
  flag := Guest.onBus_beside h.flag

theorem AccessWithin.beside (h : AccessWithin R) : AccessWithin (Guest.Beside R) where
  refl := h.loads.beside.refl
  trans := h.loads.beside.trans
  load := h.loads.beside.load
  store a b := Guest.onBus_beside (h.store a b)

theorem AccessWithin.over (h : AccessWithin R) : AccessWithin (Guest.Over R) where
  refl := h.loads.over.refl
  trans := h.loads.over.trans
  load := h.loads.over.load
  store a b := (h.beside.store a b).mono fun _ _ hb => hb.1

end Bus

/-- A step of a guest that only looks, prints or halts. -/
def GuestStep.isPlain : GuestStep → Bool
  | access (.load _) | access (.loadWord _) | writeChar _ | printLineAt _ | printLine _
  | halt | free _ | remaining | heapStart | isInitialized | inspectHeap => true
  | access (.store _ _) | access (.storeWord _ _) | allocate _ | reserve _ | newHeap
  | storeString _ => false

namespace Bus

variable {σ : Type} [Bus σ] {R : σ → σ → Prop}

namespace LoadWithin

variable (h : LoadWithin R)
include h

theorem heapStart : Within (Guest.Beside R) Guest.heapStart :=
  .bind h.beside.trans (h.beside.loadWord _) fun _ => .pure h.beside.refl _

theorem position : Within (Guest.Beside R) Guest.position := by
  refine .bind h.beside.trans h.beside.refl fun heap => ?_
  split
  · exact .pure h.beside.refl _
  · exact h.heapStart

theorem remaining : Within (Guest.Beside R) Guest.remaining :=
  .bind h.beside.trans h.position fun _ =>
    .bind h.beside.trans (h.beside.loadWord _) fun _ => .pure h.beside.refl _

theorem reserve (size : UInt32) : Within (Guest.Over R) (Guest.reserve size) := by
  have ho := h.over
  refine .bind ho.trans (h.position.mono fun _ _ hb => hb.1) fun c => ?_
  refine .bind ho.trans ho.refl fun _ => ?_
  exact .bind ho.trans (ho.loadWord _) fun memEnd => ho.refl

end LoadWithin

namespace OutputWithin

variable (h : OutputWithin R)
include h

theorem plainStep {t : GuestStep} (ht : t.isPlain = true) :
    Within (Guest.Beside R) t.run := by
  have hb := h.beside
  cases t with
  | access t =>
      cases t with
      | load a => exact .bind hb.trans (hb.load a) fun _ => .pure hb.refl _
      | loadWord a => exact .bind hb.trans (hb.loads.loadWord a) fun _ => .pure hb.refl _
      | store a b => cases ht
      | storeWord a w => cases ht
  | writeChar c => exact .bind hb.trans (hb.sink c) fun _ => .pure hb.refl _
  | printLineAt a => exact .bind hb.trans (hb.printLineAt a) fun _ => .pure hb.refl _
  | printLine s => exact .bind hb.trans (hb.printLine s) fun _ => .pure hb.refl _
  | halt => exact hb.halt.map
  | free a => exact hb.refl
  | remaining => exact .bind hb.trans h.loads.remaining fun _ => .pure hb.refl _
  | heapStart => exact .bind hb.trans h.loads.heapStart fun _ => .pure hb.refl _
  | isInitialized => exact hb.refl
  | inspectHeap => exact hb.refl
  | allocate size => cases ht
  | reserve size => cases ht
  | newHeap => cases ht
  | storeString s => cases ht

end OutputWithin

namespace AccessWithin

variable (h : AccessWithin R)
include h

theorem allocate (size : UInt32) : Within (Guest.Over R) (Guest.allocate size) := by
  have ho := h.over
  refine .bind ho.trans (h.loads.reserve size) fun a? => ?_
  cases a? with
  | some a => exact .pure ho.refl _
  | none => exact ho.output.haltOutOfMemory.map

theorem storeString (s : List UInt8) : Within (Guest.Over R) (Guest.storeString s) := by
  have ho := h.over
  refine .bind ho.trans (h.loads.remaining.mono fun _ _ hb => hb.1) fun n => ?_
  split
  · exact ho.output.haltOutOfMemory.map
  · refine .bind ho.trans (h.allocate _) fun granted => ?_
    cases granted with
    | error e => exact .pure ho.refl _
    | ok a =>
        exact .bind ho.trans (ho.storeBytes a s) fun _ =>
          .bind ho.trans (ho.store _ 0) fun _ => .pure ho.refl _

/-- No step of a guest gets further than its accesses do. -/
theorem guestStep (t : GuestStep) : Within (Guest.Over R) t.run := by
  cases ht : t.isPlain with
  | true => exact (h.output.plainStep ht).mono fun _ _ hb => hb.1
  | false =>
      cases t with
      | access t => exact h.over.accessStep t
      | allocate size => exact (h.allocate size).map
      | reserve size => exact (h.loads.reserve size).map
      | newHeap => exact h.over.refl
      | storeString s => exact (h.storeString s).map
      | _ => cases ht

end AccessWithin

end Bus

/-! ## Sessions -/

namespace Session

variable {σ τ α β : Type} {step : τ → Action σ α} {look : σ → β} {s : σ}

/-- The storage after some steps. -/
def after (step : τ → Action σ α) (ts : List τ) (s : σ) : σ :=
  (run step (fun _ => ()) ts s).2

theorem run_cons (t : τ) (ts : List τ) :
    run step look (t :: ts) s =
      (((step t).outcome s, look ((step t).final s)) ::
        (run step look ts ((step t).final s)).1,
        (run step look ts ((step t).final s)).2) := by
  cases hrun : step t s <;> simp only [run, Action.outcome, Action.final, hrun]

@[simp] theorem after_nil : after step [] s = s := rfl

@[simp] theorem after_cons (t : τ) (ts : List τ) :
    after step (t :: ts) s = after step ts ((step t).final s) := by
  simp only [after, run_cons]

theorem after_append (ts us : List τ) :
    after step (ts ++ us) s = after step us (after step ts s) := by
  induction ts generalizing s with
  | nil => rfl
  | cons t ts ih => simp [ih]

/-- What every step keeps holds at the end. -/
theorem after_keeps {P : σ → Prop} {ts : List τ}
    (hstep : ∀ t ∈ ts, ∀ s, P s → P ((step t).final s)) (hs : P s) :
    P (after step ts s) := by
  induction ts generalizing s with
  | nil => exact hs
  | cons t ts ih =>
      rw [after_cons]
      exact ih (fun t' ht => hstep t' (List.mem_cons_of_mem t ht))
        (hstep t List.mem_cons_self s hs)

/-- Each event of a session is a step from storage that has kept what every step
keeps. -/
theorem run_mem {P : σ → Prop} {ts : List τ}
    (hstep : ∀ t ∈ ts, ∀ s, P s → P ((step t).final s)) (hs : P s)
    {e : Except Fault α × β} (he : e ∈ (run step look ts s).1) :
    ∃ t ∈ ts, ∃ s', P s' ∧ e = ((step t).outcome s', look ((step t).final s')) := by
  induction ts generalizing s with
  | nil => cases he
  | cons t ts ih =>
      rw [run_cons] at he
      rcases List.mem_cons.mp he with rfl | hrest
      · exact ⟨t, List.mem_cons_self, s, hs, rfl⟩
      · obtain ⟨u, hu, hevent⟩ := ih (fun u hu => hstep u (List.mem_cons_of_mem t hu))
          (hstep t List.mem_cons_self s hs) hrest
        exact ⟨u, List.mem_cons_of_mem t hu, hevent⟩

theorem run_seen {P : σ → Prop} {ts : List τ}
    (hstep : ∀ t ∈ ts, ∀ s, P s → P ((step t).final s)) (hs : P s)
    {e : Except Fault α × β} (he : e ∈ (run step look ts s).1) :
    ∃ s', P s' ∧ e.2 = look s' := by
  obtain ⟨t, ht, s', hs', rfl⟩ := run_mem hstep hs he
  exact ⟨_, hstep t ht s' hs', rfl⟩

/-- A relation between an event and all later ones, from what a step leaves behind
for good. -/
theorem run_pairwise {P : σ → Prop} {G : σ → σ → Prop}
    {Q : Except Fault α × β → Except Fault α × β → Prop} (hrefl : ∀ s, G s s)
    (hstep : ∀ t s, P s → P ((step t).final s))
    (hgrow : ∀ t s₀ s, P s → G s₀ s → G s₀ ((step t).final s))
    (hQ : ∀ t u s s', P s → P s' → G ((step t).final s) s' →
      Q ((step t).outcome s, look ((step t).final s))
        ((step u).outcome s', look ((step u).final s')))
    (ts : List τ) (hs : P s) : (run step look ts s).1.Pairwise Q := by
  induction ts generalizing s with
  | nil => exact .nil
  | cons t ts ih =>
      have hnext := hstep t s hs
      rw [run_cons]
      refine .cons (fun f hf => ?_) (ih hnext)
      -- From here on, storage is also grown from what this step left.
      obtain ⟨u, -, s', ⟨hs', hgrown⟩, rfl⟩ :=
        run_mem (P := fun s' => P s' ∧ G ((step t).final s) s')
          (fun u _ s' h => ⟨hstep u s' h.1, hgrow u _ s' h.1 h.2⟩) ⟨hnext, hrefl _⟩ hf
      exact hQ t u s s' hs hs' hgrown

/-- Each step of a session starts from storage that has kept what every step
keeps. -/
theorem run_at {P : σ → Prop} {ts : List τ}
    (hstep : ∀ t ∈ ts, ∀ s, P s → P ((step t).final s)) (hs : P s) {k : Nat} {t : τ}
    (hk : ts[k]? = some t) :
    ∃ s', P s' ∧ (run step look ts s).1[k]? =
      some ((step t).outcome s', look ((step t).final s')) := by
  induction ts generalizing s k with
  | nil => cases hk
  | cons t' ts ih =>
      rw [run_cons]
      cases k with
      | zero =>
          cases hk
          exact ⟨s, hs, rfl⟩
      | succ k =>
          exact ih (fun u hu => hstep u (List.mem_cons_of_mem t' hu))
            (hstep t' List.mem_cons_self s hs) hk

end Session

end FlatMachine
