import FlatMachine.Proofs.BootImage
import FlatMachine.Proofs.GuestHeap
import FlatMachine.Script

/-!
# What a script comes to

A script is a list of messages and then a list of sizes, and either list is served
from the front until the first request that is denied. `Course.serve` is that rule
on natural numbers, with no machine in it: a request is served at the position
reached so far, and moves it on.

The two loops follow their courses step by step. One message is one delivery,
which is a string on the heap, a line on the console and a copy in the buffer, and
one block only moves the cursor. Since a delivery changes nothing below the heap
but the sink, the registers stay where they are and the next request finds the
machine as ready as the first one did. What the deliveries add up to is then
induction along the served requests, with no machine code left in it.
-/

namespace FlatMachine

/-- How far some requests got: those that were served, each with its position, the
position reached, and whether one was denied. -/
structure Course (α : Type) where
  served : List (Nat × α)
  reached : Nat
  denied : Bool
deriving DecidableEq, Repr

namespace Course

variable {α : Type}

/-- Serves requests in order from position `c` on, up to the first that does not
fit. -/
def serve (fits : Nat → α → Bool) (next : Nat → α → Nat) : Nat → List α → Course α
  | c, [] => ⟨[], c, false⟩
  | c, x :: rest =>
    if fits c x then
      let after := serve fits next (next c x) rest
      { after with served := (c, x) :: after.served }
    else
      ⟨[], c, true⟩

/-- The course of strings, each with a closing zero, below position `stop`. -/
def ofTexts (stop : Nat) : Nat → List (List UInt8) → Course (List UInt8) :=
  serve (fun c t => c + t.length + 1 ≤ stop) fun c t => c + t.length + 1

/-- The course of blocks that start below position `stop`. -/
def ofSizes (stop : Nat) : Nat → List UInt32 → Course UInt32 :=
  serve (fun c _ => c < stop) fun c size => min (Address.space - 1) (c + size.toNat)

/-- Nothing moves until a request is served. -/
theorem reached_of_served_nil {fits : Nat → α → Bool} {next : Nat → α → Nat} {c : Nat}
    {xs : List α} (h : (serve fits next c xs).served = []) :
    (serve fits next c xs).reached = c := by
  cases xs with
  | nil => rfl
  | cons x rest =>
      rw [serve] at h ⊢
      split at h
      · cases h
      · next hno => rw [if_neg hno]

/-- Only an empty list is gone through with nothing served and nothing denied. -/
theorem eq_nil_of_served_nil {fits : Nat → α → Bool} {next : Nat → α → Nat} {c : Nat}
    {xs : List α} (h : (serve fits next c xs).served = [])
    (hd : (serve fits next c xs).denied = false) : xs = [] := by
  cases xs with
  | nil => rfl
  | cons x rest =>
      rw [serve] at h hd
      split at h
      · cases h
      · next hno =>
          rw [if_neg hno] at hd
          cases hd

variable {stop c : Nat}

theorem ofTexts_fits {t : List UInt8} (h : c + t.length + 1 ≤ stop)
    (rest : List (List UInt8)) :
    ofTexts stop c (t :: rest) =
      { ofTexts stop (c + t.length + 1) rest with
        served := (c, t) :: (ofTexts stop (c + t.length + 1) rest).served } :=
  if_pos (decide_eq_true h)

theorem ofTexts_full {t : List UInt8} (h : stop < c + t.length + 1)
    (rest : List (List UInt8)) : ofTexts stop c (t :: rest) = ⟨[], c, true⟩ :=
  if_neg (by rw [decide_eq_true_iff]; omega)

theorem ofSizes_granted (h : c < stop) (size : UInt32) (rest : List UInt32) :
    ofSizes stop c (size :: rest) =
      { ofSizes stop (min (Address.space - 1) (c + size.toNat)) rest with
        served := (c, size) ::
          (ofSizes stop (min (Address.space - 1) (c + size.toNat)) rest).served } :=
  if_pos (decide_eq_true h)

theorem ofSizes_refused (h : stop ≤ c) (size : UInt32) (rest : List UInt32) :
    ofSizes stop c (size :: rest) = ⟨[], c, true⟩ :=
  if_neg (by rw [decide_eq_true_iff]; omega)

theorem ofSizes_bounds {sizes : List UInt32} {b : Nat × UInt32}
    (hb : b ∈ (ofSizes stop c sizes).served) : b.1 < stop := by
  induction sizes generalizing c with
  | nil => cases hb
  | cons size rest ih =>
      rcases Nat.lt_or_ge c stop with hlt | hge
      · rw [ofSizes_granted hlt] at hb
        rcases List.mem_cons.mp hb with rfl | hrest
        · exact hlt
        · exact ih hrest
      · rw [ofSizes_refused hge] at hb
        cases hb

/-- The strings served lie above the start and below the stop. -/
theorem ofTexts_bounds {ts : List (List UInt8)} {t : Nat × List UInt8}
    (ht : t ∈ (ofTexts stop c ts).served) :
    c ≤ t.1 ∧ t.1 + t.2.length + 1 ≤ stop := by
  induction ts generalizing c with
  | nil => cases ht
  | cons x rest ih =>
      rcases Nat.lt_or_ge stop (c + x.length + 1) with hfull | hfit
      · rw [ofTexts_full hfull] at ht
        cases ht
      · rw [ofTexts_fits hfit] at ht
        rcases List.mem_cons.mp ht with rfl | hrest
        · exact ⟨Nat.le_refl _, hfit⟩
        · obtain ⟨hlo, hhi⟩ := ih hrest
          exact ⟨by omega, hhi⟩

end Course

namespace Script

namespace Progress

variable {p : Progress} {g : Guest Machine} {stackStart memEnd : Address} {c : Nat}

/-- The script after a message has been stored and printed both ways. -/
def delivered (p : Progress) (t : Nat × List UInt8) : Progress :=
  ⟨⟨(p.guest.bus.withBlock (UInt32.ofNat t.1) (t.2 ++ [0])).emit
      (t.2.takeWhile (· ≠ 0) ++ [newline]), ⟨UInt32.ofNat (t.1 + t.2.length + 1)⟩⟩,
    p.blocks.push (UInt32.ofNat t.1),
    ⟨p.buffer.bytes ++ (t.2.takeWhile (· ≠ 0)).toArray⟩⟩

/-- The script after a block has been granted. -/
def granted (p : Progress) (b : Nat × UInt32) : Progress :=
  ⟨⟨p.guest.bus, ⟨UInt32.ofNat (min (Address.space - 1) (b.1 + b.2.toNat))⟩⟩,
    p.blocks.push (UInt32.ofNat b.1), p.buffer⟩

/-- The script after a request has been denied. -/
def exhausted (p : Progress) (h : Heap) : Progress :=
  ⟨⟨p.guest.bus.exhausted, h⟩, p.blocks, p.buffer⟩

theorem onGuest_ok {α : Type} {x : Action (Guest Machine) α} {a : α}
    (h : x p.guest = .ok a g) :
    onGuest x p = .ok a ⟨g, p.blocks, p.buffer⟩ := by
  rw [onGuest, h]

theorem note_run (a : Address) :
    note a p = .ok () ⟨p.guest, p.blocks.push a, p.buffer⟩ :=
  rfl

/-! ## One message -/

theorem delivered_sits (hp : p.guest.Sits stackStart memEnd c) {t : List UInt8}
    (hfit : c + t.length + 1 ≤ memEnd.toNat) :
    (p.delivered (c, t)).guest.Sits stackStart memEnd (c + t.length + 1) := by
  have hstart := hp.start_le
  have hio := hp.ready.io_le
  have hsize := hp.ready.size_le
  have hspace : Address.space = 2 ^ 32 := rfl
  have hlt : c + t.length + 1 < Address.space := by omega
  refine hp.move (by omega) hlt (Machine.Ready.emit ?_ _)
  exact hp.ready.withBlock (by rw [hp.toNat_ofNat]; omega)

theorem copyString_run {a : Address} {t : List UInt8}
    (hspace : p.guest.bus.memory.size < Address.space)
    (hstring : p.guest.bus.memory.stringFrom a.toNat = t) :
    copyString a p = .ok () ⟨p.guest, p.blocks, ⟨p.buffer.bytes ++ t.toArray⟩⟩ := by
  have hrun := PrintPath.printFrom_run
    ((LookupList.ofMemory p.guest.bus.memory).size + 1) a 0
    (LookupList.ofMemory p.guest.bus.memory) p.buffer rfl hspace
    (Nat.lt_succ_of_le (Nat.le_trans (Memory.length_stringFrom _ _) (Nat.sub_le _ _)))
  rw [hstring] at hrun
  have hprint : PrintPath.print ⟨.ofMemory p.guest.bus.memory, p.buffer⟩ a = _ := hrun
  simp only [copyString, hprint]

/-- The copy is taken once the line is on the console, and is the same string. -/
theorem copyString_delivered (hp : p.guest.Sits stackStart memEnd c) {t : List UInt8}
    (hfit : c + t.length + 1 ≤ memEnd.toNat) :
    copyString (UInt32.ofNat c) ⟨(p.delivered (c, t)).guest,
      p.blocks.push (UInt32.ofNat c), p.buffer⟩ = .ok () (p.delivered (c, t)) := by
  have hstart := hp.start_le
  refine copyString_run (t := t.takeWhile (· ≠ 0)) (delivered_sits hp hfit).ready.size_lt ?_
  rw [hp.toNat_ofNat, ← hp.stringFrom_stored hfit]
  exact Memory.stringFrom_congr fun j hj => Machine.emit_frame _ _ (by omega)

theorem sendMessages_fits (hp : p.guest.Sits stackStart memEnd c) {s : String}
    (hfit : c + (Text.encode s).length + 1 ≤ memEnd.toNat) (rest : List String) :
    sendMessages (s :: rest) p = sendMessages rest (p.delivered (c, Text.encode s)) := by
  have hprint := onGuest_ok (p := ⟨_, p.blocks.push (UInt32.ofNat c), p.buffer⟩)
    (hp.printLineAt_stored hfit ⟨UInt32.ofNat (c + (Text.encode s).length + 1)⟩)
  rw [sendMessages, Action.bind_ok (onGuest_ok (hp.storeString_fits _ hfit))]
  simp only []
  rw [Action.bind_ok (note_run _), Action.bind_ok hprint]
  exact Action.bind_ok (copyString_delivered hp hfit)

theorem sendMessages_full (hp : p.guest.Sits stackStart memEnd c) {s : String}
    (hfull : memEnd.toNat < c + (Text.encode s).length + 1) (rest : List String) :
    sendMessages (s :: rest) p = .ok (.error {}) (p.exhausted p.guest.heap) := by
  rw [sendMessages, Action.bind_ok (onGuest_ok (hp.storeString_full _ hfull))]
  rfl

theorem takeBlocks_granted (hp : p.guest.Sits stackStart memEnd c)
    (hlt : c < memEnd.toNat) (size : UInt32) (rest : List UInt32) :
    takeBlocks (size :: rest) p = takeBlocks rest (p.granted (c, size)) := by
  rw [takeBlocks, Action.bind_ok (onGuest_ok (hp.allocate_granted size hlt))]
  rfl

theorem takeBlocks_refused (hp : p.guest.Sits stackStart memEnd c)
    (hge : memEnd.toNat ≤ c) (size : UInt32) (rest : List UInt32) :
    takeBlocks (size :: rest) p = .ok (.error {}) (p.exhausted ⟨UInt32.ofNat c⟩) := by
  rw [takeBlocks, Action.bind_ok (onGuest_ok (hp.allocate_refused size hge))]
  rfl

/-! ## The two loops -/

theorem granted_sits (hp : p.guest.Sits stackStart memEnd c) (size : UInt32) :
    (p.granted (c, size)).guest.Sits stackStart memEnd
      (min (Address.space - 1) (c + size.toNat)) := by
  have hlt := hp.lt_space
  exact hp.move (by omega) (by omega) hp.ready

theorem sendMessages_run (messages : List String)
    (hp : p.guest.Sits stackStart memEnd c) :
    let course := Course.ofTexts memEnd.toNat c (messages.map Text.encode)
    let p' := course.served.foldl delivered p
    sendMessages messages p = (if course.denied then
        .ok (.error {}) (p'.exhausted p'.guest.heap) else .ok (.ok ()) p') ∧
      p'.guest.Sits stackStart memEnd course.reached := by
  induction messages generalizing p c with
  | nil => exact ⟨rfl, hp⟩
  | cons s rest ih =>
      rw [List.map_cons]
      rcases Nat.lt_or_ge memEnd.toNat (c + (Text.encode s).length + 1) with hfull | hfit
      · rw [Course.ofTexts_full hfull, sendMessages_full hp hfull]
        exact ⟨rfl, hp⟩
      · rw [Course.ofTexts_fits hfit, sendMessages_fits hp hfit]
        exact ih (delivered_sits hp hfit)

theorem takeBlocks_run (sizes : List UInt32)
    (hp : p.guest.Sits stackStart memEnd c) :
    let course := Course.ofSizes memEnd.toNat c sizes
    let p' := course.served.foldl granted p
    takeBlocks sizes p = (if course.denied then
        .ok (.error {}) (p'.exhausted ⟨UInt32.ofNat course.reached⟩)
        else .ok (.ok ()) p') ∧
      p'.guest.Sits stackStart memEnd course.reached := by
  induction sizes generalizing p c with
  | nil => exact ⟨rfl, hp⟩
  | cons size rest ih =>
      rcases Nat.lt_or_ge c memEnd.toNat with hlt | hge
      · rw [Course.ofSizes_granted hlt, takeBlocks_granted hp hlt]
        exact ih (granted_sits hp size)
      · rw [Course.ofSizes_refused hge, takeBlocks_refused hp hge]
        exact ⟨rfl, hp⟩

/-! ## What deliveries add up to -/

theorem foldl_appends {α β : Type} {f : Progress → α → Progress} (seen : Progress → List β)
    {added : α → List β} (hf : ∀ p x, seen (f p x) = seen p ++ added x)
    (xs : List α) (p : Progress) :
    seen (xs.foldl f p) = seen p ++ xs.flatMap added := by
  induction xs generalizing p with
  | nil => exact (List.append_nil _).symm
  | cons x xs ih => rw [List.foldl_cons, ih, hf, List.flatMap_cons, List.append_assoc]

theorem foldl_blocks {α : Type} {f : Progress → Nat × α → Progress}
    (hf : ∀ p x, (f p x).blocks = p.blocks.push (UInt32.ofNat x.1))
    (xs : List (Nat × α)) (p : Progress) :
    (xs.foldl f p).blocks.toList =
      p.blocks.toList ++ xs.map fun x => UInt32.ofNat x.1 := by
  have hpush : ∀ p x, (f p x).blocks.toList = p.blocks.toList ++ [UInt32.ofNat x.1] := by
    intro p x
    rw [hf, Array.toList_push]
  rw [List.map_eq_flatMap]
  exact foldl_appends (fun p => p.blocks.toList) hpush xs p

theorem foldl_heap {α : Type} {fits : Nat → α → Bool} {next : Nat → α → Nat}
    {f : Progress → Nat × α → Progress}
    (hf : ∀ p c x, (f p (c, x)).guest.heap = ⟨UInt32.ofNat (next c x)⟩)
    (xs : List α) (c : Nat) (p : Progress) :
    ((Course.serve fits next c xs).served.foldl f p).guest.heap =
      if (Course.serve fits next c xs).served = [] then p.guest.heap
      else ⟨UInt32.ofNat (Course.serve fits next c xs).reached⟩ := by
  induction xs generalizing c p with
  | nil => rfl
  | cons x xs ih =>
      rw [Course.serve]
      split
      · rw [if_neg (List.cons_ne_nil _ _), List.foldl_cons, ih, hf]
        split
        · next hnil => rw [Course.reached_of_served_nil hnil]
        · rfl
      · rfl

theorem foldl_delivered_heap (stop c : Nat) (ts : List (List UInt8)) (p : Progress) :
    ((Course.ofTexts stop c ts).served.foldl delivered p).guest.heap =
      if (Course.ofTexts stop c ts).served = [] then p.guest.heap
      else ⟨UInt32.ofNat (Course.ofTexts stop c ts).reached⟩ :=
  foldl_heap (fun _ _ _ => rfl) ts c p

theorem foldl_granted_heap (stop c : Nat) (sizes : List UInt32) (p : Progress) :
    ((Course.ofSizes stop c sizes).served.foldl granted p).guest.heap =
      if (Course.ofSizes stop c sizes).served = [] then p.guest.heap
      else ⟨UInt32.ofNat (Course.ofSizes stop c sizes).reached⟩ :=
  foldl_heap (fun _ _ _ => rfl) sizes c p

theorem foldl_delivered_buffer (ts : List (Nat × List UInt8)) (p : Progress) :
    (ts.foldl delivered p).buffer.toList =
      p.buffer.toList ++ ts.flatMap fun t => t.2.takeWhile (· ≠ 0) := by
  refine foldl_appends (fun p => p.buffer.toList) (fun p t => ?_) ts p
  exact Array.toList_append

theorem foldl_delivered_console (ts : List (Nat × List UInt8)) (p : Progress) :
    (ts.foldl delivered p).guest.bus.console.toList = p.guest.bus.console.toList ++
      ts.flatMap fun t => t.2.takeWhile (· ≠ 0) ++ [newline] := by
  refine foldl_appends (fun p => p.guest.bus.console.toList) (fun p t => ?_) ts p
  exact Machine.emit_console _ _

theorem foldl_delivered_keeps (ts : List (Nat × List UInt8)) (p : Progress) :
    (ts.foldl delivered p).guest.bus.status = p.guest.bus.status ∧
      (ts.foldl delivered p).guest.bus.entryPoint = p.guest.bus.entryPoint ∧
      (ts.foldl delivered p).guest.bus.droppedStores = p.guest.bus.droppedStores ∧
      (ts.foldl delivered p).guest.bus.memory.size = p.guest.bus.memory.size := by
  induction ts generalizing p with
  | nil => exact ⟨rfl, rfl, rfl, rfl⟩
  | cons t ts ih =>
      obtain ⟨hstatus, hentry, hdropped, hsize⟩ := ih (p.delivered t)
      refine ⟨hstatus.trans (Machine.emit_status _ _),
        hentry.trans (Machine.emit_entryPoint _ _),
        hdropped.trans (Machine.emit_dropped _ _), hsize.trans ?_⟩
      exact (Machine.size_emit _ _).trans (Machine.size_withBlock _ _ _)

theorem delivered_frame {t : Nat × List UInt8} {i : Nat} (hi : 0 < i)
    (hin : t.1 < Address.space) (hout : i < t.1 ∨ t.1 + t.2.length < i) :
    (p.delivered t).guest.bus.memory.bytes[i]? = p.guest.bus.memory.bytes[i]? := by
  refine (Machine.emit_frame _ _ hi).trans (Machine.withBlock_frame hin ?_)
  rw [List.length_append, List.length_singleton]
  omega

theorem foldl_delivered_frame {ts : List (Nat × List UInt8)} {i : Nat} (hi : 0 < i)
    (hin : ∀ t ∈ ts, t.1 < Address.space)
    (hout : ∀ t ∈ ts, i < t.1 ∨ t.1 + t.2.length < i) (p : Progress) :
    (ts.foldl delivered p).guest.bus.memory.bytes[i]? =
      p.guest.bus.memory.bytes[i]? := by
  induction ts generalizing p with
  | nil => rfl
  | cons t ts ih =>
      rw [List.foldl_cons, ih (fun t' ht => hin t' (List.mem_cons_of_mem t ht))
        (fun t' ht => hout t' (List.mem_cons_of_mem t ht))]
      exact delivered_frame hi (hin t List.mem_cons_self) (hout t List.mem_cons_self)

theorem delivered_window {t : Nat × List UInt8} {k : Nat} (hpos : 0 < t.1)
    (hin : t.1 < Address.space)
    (hfit : t.1 + t.2.length + 1 ≤ p.guest.bus.memory.size) (hk : k ≤ t.2.length) :
    (p.delivered t).guest.bus.memory.bytes[t.1 + k]? = (t.2 ++ [0])[k]? := by
  have hlen : (t.2 ++ [0]).length = t.2.length + 1 := List.length_append
  refine (Machine.emit_frame _ _ (by omega)).trans ?_
  exact Machine.withBlock_window hin (by rw [hlen]; exact hfit) (by rw [hlen]; omega)

/-- Each string is still there at the end, because the later ones lie above it. -/
theorem foldl_delivered_window {stop : Nat} (ts : List (List UInt8)) (p : Progress)
    (hpos : 0 < c) (hstop : stop ≤ p.guest.bus.memory.size)
    (hspace : p.guest.bus.memory.size < Address.space) {t : Nat × List UInt8}
    (ht : t ∈ (Course.ofTexts stop c ts).served) {k : Nat} (hk : k ≤ t.2.length) :
    ((Course.ofTexts stop c ts).served.foldl delivered p).guest.bus.memory.bytes[
      t.1 + k]? = (t.2 ++ [0])[k]? := by
  induction ts generalizing c p with
  | nil => cases ht
  | cons x rest ih =>
      rcases Nat.lt_or_ge stop (c + x.length + 1) with hfull | hfit
      · rw [Course.ofTexts_full hfull] at ht
        cases ht
      · have hsize : (p.delivered (c, x)).guest.bus.memory.size =
            p.guest.bus.memory.size := (foldl_delivered_keeps [(c, x)] p).2.2.2
        rw [Course.ofTexts_fits hfit] at ht ⊢
        rcases List.mem_cons.mp ht with rfl | hrest
        · have hk' : k ≤ x.length := hk
          rw [List.foldl_cons, foldl_delivered_frame]
          · exact delivered_window hpos (show c < _ by omega)
              (show c + x.length + 1 ≤ _ by omega) hk
          · omega
          · intro t ht
            have hbounds := Course.ofTexts_bounds ht
            omega
          · intro t ht
            have hbounds := Course.ofTexts_bounds ht
            omega
        · exact ih (p.delivered (c, x)) (by omega) (by rw [hsize]; exact hstop)
            (by rw [hsize]; exact hspace) hrest

theorem foldl_granted_bus (bs : List (Nat × UInt32)) (p : Progress) :
    (bs.foldl granted p).guest.bus = p.guest.bus ∧
      (bs.foldl granted p).buffer = p.buffer := by
  induction bs generalizing p with
  | nil => exact ⟨rfl, rfl⟩
  | cons b bs ih => exact ih (p.granted b)

end Progress

/-! ## The whole script -/

/-- The course of a script's messages on a heap between two positions. -/
def texts (s : Script) (start stop : Nat) : Course (List UInt8) :=
  Course.ofTexts stop start (s.messages.map Text.encode)

/-- The sizes that a script gets to ask for: all of them, if every message found
room. -/
def requests (s : Script) (start stop : Nat) : List UInt32 :=
  if (s.texts start stop).denied then [] else s.allocations

/-- The course of the sizes, from where the messages have got. -/
def blocks (s : Script) (start stop : Nat) : Course UInt32 :=
  Course.ofSizes stop (s.texts start stop).reached (s.requests start stop)

/-- Whether some request is denied. -/
def denied (s : Script) (start stop : Nat) : Bool :=
  (s.texts start stop).denied || (s.blocks start stop).denied

/-- What a script leaves behind on a machine and in its report, told by its two
courses. -/
structure Outcome (s : Script) (start stop : Nat) (m : Machine) (r : Report)
    (m' : Machine) : Prop where
  allocations : r.allocations.map UInt32.toNat =
    (s.texts start stop).served.map Prod.fst ++ (s.blocks start stop).served.map Prod.fst
  halted : r.halted = s.denied start stop
  /-- The cursor stays null until a string is stored or a block is asked for. -/
  cursor : r.cursor.toNat =
    if (s.texts start stop).served = [] ∧ s.requests start stop = [] then 0
    else (s.blocks start stop).reached
  printBuffer : r.printBuffer.toList =
    (s.texts start stop).served.flatMap fun t => t.2.takeWhile (· ≠ 0)
  console : m'.console.toList = m.console.toList ++
    ((s.texts start stop).served.flatMap fun t => t.2.takeWhile (· ≠ 0) ++ [newline]) ++
    if s.denied start stop then outOfMemory ++ [newline] else []
  status : m'.status = if s.denied start stop then .halted else .running
  entryPoint : m'.entryPoint = m.entryPoint
  droppedStores : m'.droppedStores = m.droppedStores
  size : m'.memory.size = m.memory.size
  strings : ∀ t ∈ (s.texts start stop).served,
    m'.memory.extract t.1 (t.1 + t.2.length + 1) = t.2 ++ [0]
  /-- Nothing changes but the sink, the halt flag and the strings stored. -/
  frame : ∀ i : Nat, 0 < i → (s.denied start stop = true → i ≠ 12) →
    (∀ t ∈ (s.texts start stop).served, i < t.1 ∨ t.1 + t.2.length < i) →
    m'.memory.bytes[i]? = m.memory.bytes[i]?

variable {m : Machine} {stackStart memEnd : Address}

/-- The script on a machine once everything that can be served is. -/
def finished (s : Script) (start stop : Nat) (m : Machine) : Progress :=
  (s.blocks start stop).served.foldl Progress.granted
    ((s.texts start stop).served.foldl Progress.delivered ⟨⟨m, {}⟩, #[], {}⟩)

/-- The heap of a script at its end. Asking for a block sets the cursor even if the
block is denied, and a string that is denied does not. -/
def finalHeap (s : Script) (start stop : Nat) (m : Machine) : Heap :=
  if (s.blocks start stop).denied then ⟨UInt32.ofNat (s.blocks start stop).reached⟩
  else (s.finished start stop m).guest.heap

theorem steps_run (s : Script) {start : Nat}
    (hg : Guest.Sits ⟨m, {}⟩ stackStart memEnd start) :
    s.steps ⟨⟨m, {}⟩, #[], {}⟩ = if s.denied start memEnd.toNat then
      .ok (.error {}) ((s.finished start memEnd.toNat m).exhausted
        (s.finalHeap start memEnd.toNat m))
      else .ok (.ok ()) (s.finished start memEnd.toNat m) := by
  obtain ⟨hsend, hsits⟩ := Progress.sendMessages_run s.messages
    (p := ⟨⟨m, {}⟩, #[], {}⟩) hg
  rw [← texts] at hsend hsits
  cases htexts : (s.texts start memEnd.toNat).denied with
  | true =>
      -- No block is asked for, so the second course is empty.
      have hnone : s.requests start memEnd.toNat = [] := if_pos htexts
      have hblocks : s.blocks start memEnd.toNat =
          ⟨[], (s.texts start memEnd.toNat).reached, false⟩ := by
        rw [blocks, hnone]
        rfl
      rw [if_pos htexts] at hsend
      rw [steps, Action.bind_ok hsend]
      simp only [denied, htexts, Bool.true_or, if_true, finalHeap, finished, hblocks,
        List.foldl_nil]
      rfl
  | false =>
      have hnot : ¬ (s.texts start memEnd.toNat).denied = true := by
        rw [htexts]
        decide
      have hall : s.requests start memEnd.toNat = s.allocations := if_neg hnot
      obtain ⟨htake, -⟩ := Progress.takeBlocks_run s.allocations hsits
      rw [← hall, ← blocks] at htake
      rw [if_neg hnot] at hsend
      rw [steps, Action.bind_ok hsend]
      simp only [denied, htexts, Bool.false_or, finalHeap, finished]
      rw [← hall, htake]
      cases hblocks : (s.blocks start memEnd.toNat).denied with
      | true => rfl
      | false => rfl

theorem run_eq (s : Script) {start : Nat}
    (hg : Guest.Sits ⟨m, {}⟩ stackStart memEnd start) :
    s.run m = .ok
      ⟨(s.finished start memEnd.toNat m).blocks.toList, s.denied start memEnd.toNat,
        (s.finalHeap start memEnd.toNat m).cursor,
        (s.finished start memEnd.toNat m).buffer⟩
      ((s.finished start memEnd.toNat m).guest.bus.closed
        (s.denied start memEnd.toNat)) := by
  have hsteps := s.steps_run hg
  cases hdenied : s.denied start memEnd.toNat with
  | true =>
      rw [hdenied, if_pos rfl] at hsteps
      simp only [run, hsteps, Progress.exhausted, Machine.closed, if_true]
  | false =>
      have hheap : s.finalHeap start memEnd.toNat m =
          (s.finished start memEnd.toNat m).guest.heap := by
        refine if_neg ?_
        rw [(Bool.or_eq_false_iff.mp hdenied).2]
        decide
      rw [hdenied, if_neg (by decide)] at hsteps
      simp only [run, hsteps, hheap]
      rfl

theorem finished_sits (s : Script) {start : Nat}
    (hg : Guest.Sits ⟨m, {}⟩ stackStart memEnd start) :
    (s.finished start memEnd.toNat m).guest.Sits stackStart memEnd
      (s.blocks start memEnd.toNat).reached := by
  obtain ⟨-, hsits⟩ := Progress.sendMessages_run s.messages
    (p := ⟨⟨m, {}⟩, #[], {}⟩) hg
  exact (Progress.takeBlocks_run (s.requests start memEnd.toNat) hsits).2

theorem blocks_reached_lt (s : Script) {start : Nat}
    (hg : Guest.Sits ⟨m, {}⟩ stackStart memEnd start) :
    (s.blocks start memEnd.toNat).reached < Address.space :=
  (s.finished_sits hg).lt_space

theorem start_le_reached (s : Script) (hm : m.Ready stackStart memEnd) :
    stackStart.toNat + 4 ≤ (s.blocks (stackStart.toNat + 4) memEnd.toNat).reached :=
  (s.finished_sits (Guest.Sits.fresh hm)).start_le

theorem toNat_finalHeap (s : Script) {start stop : Nat} (m : Machine)
    (hlt : (s.blocks start stop).reached < Address.space) :
    (s.finalHeap start stop m).cursor.toNat =
      if (s.texts start stop).served = [] ∧ s.requests start stop = [] then 0
      else (s.blocks start stop).reached := by
  have hnat := Address.toNat_ofNat_of_lt hlt
  unfold finalHeap
  cases hdenied : (s.blocks start stop).denied with
  | true =>
      have hasked : s.requests start stop ≠ [] := by
        intro hnil
        rw [blocks, hnil] at hdenied
        cases hdenied
      rw [if_pos rfl, if_neg fun h => hasked h.2]
      exact hnat
  | false =>
      rw [if_neg (by decide), finished, blocks, Progress.foldl_granted_heap, ← blocks]
      by_cases hserved : (s.blocks start stop).served = []
      · have hnil : s.requests start stop = [] :=
          Course.eq_nil_of_served_nil hserved hdenied
        have hreached : (s.blocks start stop).reached = (s.texts start stop).reached :=
          Course.reached_of_served_nil hserved
        rw [if_pos hserved, texts, Progress.foldl_delivered_heap, ← texts, hreached]
        by_cases htexts : (s.texts start stop).served = []
        · rw [if_pos htexts, if_pos ⟨htexts, hnil⟩]
          rfl
        · rw [if_neg htexts, if_neg fun h => htexts h.1, ← hreached]
          exact hnat
      · have hasked : s.requests start stop ≠ [] := by
          intro hnil
          rw [blocks, hnil] at hserved
          exact hserved rfl
        rw [if_neg hserved, if_neg fun h => hasked h.2]
        exact hnat

theorem map_toNat_ofNat {α : Type} {xs : List (Nat × α)}
    (h : ∀ x ∈ xs, x.1 < Address.space) :
    (xs.map fun x => UInt32.ofNat x.1).map UInt32.toNat = xs.map Prod.fst := by
  rw [List.map_map]
  exact List.map_congr_left fun x hx => Address.toNat_ofNat_of_lt (h x hx)

theorem finished_allocations (s : Script) {start stop : Nat} (m : Machine)
    (hstop : stop < Address.space) :
    (s.finished start stop m).blocks.toList.map UInt32.toNat =
      (s.texts start stop).served.map Prod.fst ++
        (s.blocks start stop).served.map Prod.fst := by
  have htexts : ∀ t ∈ (s.texts start stop).served, t.1 < Address.space := by
    intro t ht
    have hbounds := Course.ofTexts_bounds ht
    omega
  have hblocks : ∀ b ∈ (s.blocks start stop).served, b.1 < Address.space :=
    fun b hb => Nat.lt_trans (Course.ofSizes_bounds hb) hstop
  rw [finished, Progress.foldl_blocks (fun _ _ => rfl),
    Progress.foldl_blocks (fun _ _ => rfl), List.map_append, List.map_append,
    map_toNat_ofNat htexts, map_toNat_ofNat hblocks]
  rfl

theorem finished_bus (s : Script) (start stop : Nat) (m : Machine) :
    (s.finished start stop m).guest.bus = ((s.texts start stop).served.foldl
      Progress.delivered ⟨⟨m, {}⟩, #[], {}⟩).guest.bus :=
  (Progress.foldl_granted_bus _ _).1

theorem finished_buffer (s : Script) (start stop : Nat) (m : Machine) :
    (s.finished start stop m).buffer.toList =
      (s.texts start stop).served.flatMap fun t => t.2.takeWhile (· ≠ 0) := by
  rw [finished, (Progress.foldl_granted_bus _ _).2, Progress.foldl_delivered_buffer]
  rfl

theorem finished_frame (s : Script) {start stop i : Nat} (m : Machine)
    (hstop : stop < Address.space) (hi : 0 < i)
    (hout : ∀ t ∈ (s.texts start stop).served, i < t.1 ∨ t.1 + t.2.length < i) :
    (s.finished start stop m).guest.bus.memory.bytes[i]? = m.memory.bytes[i]? := by
  rw [finished_bus, Progress.foldl_delivered_frame hi ?_ hout]
  intro t ht
  have hbounds := Course.ofTexts_bounds ht
  omega

/-- A stored string and its closing zero, on any machine that agrees with the
finished script above the registers. -/
theorem finished_string (s : Script) {start stop : Nat} {m m' : Machine}
    (hlow : 12 < start) (hstop : stop = m.memory.size)
    (hspace : m.memory.size < Address.space) (hsize : m'.memory.size = m.memory.size)
    (hsame : ∀ i : Nat, 12 < i → m'.memory.bytes[i]? =
      (s.finished start stop m).guest.bus.memory.bytes[i]?)
    {t : Nat × List UInt8} (ht : t ∈ (s.texts start stop).served) :
    m'.memory.extract t.1 (t.1 + t.2.length + 1) = t.2 ++ [0] := by
  obtain ⟨hlo, hhi⟩ := Course.ofTexts_bounds ht
  have hlen : (t.2 ++ [0]).length = t.2.length + 1 := List.length_append
  rw [Nat.add_assoc, ← hlen]
  refine Memory.extract_eq (by rw [hlen, hsize]; omega) fun k hk => ?_
  rw [hsame _ (by omega), finished_bus]
  exact Progress.foldl_delivered_window _ _ (by omega) (Nat.le_of_eq hstop) hspace ht
    (by omega)

theorem run_outcome (s : Script) (hm : m.Ready stackStart memEnd) :
    ∃ r m', s.run m = .ok r m' ∧
      s.Outcome (stackStart.toNat + 4) memEnd.toNat m r m' := by
  have hg := Guest.Sits.fresh hm
  have hio := hm.io_le
  have hspace := hm.size_lt
  have hstop : memEnd.toNat < Address.space := Address.toNat_lt_space memEnd
  obtain ⟨hstatus, hentry, hdropped, hsize⟩ := Progress.foldl_delivered_keeps
    (s.texts (stackStart.toNat + 4) memEnd.toNat).served ⟨⟨m, {}⟩, #[], {}⟩
  rw [← finished_bus] at hstatus hentry hdropped hsize
  obtain ⟨hentry', hdropped', hsize'⟩ := Machine.closed_keeps
    (s.finished (stackStart.toNat + 4) memEnd.toNat m).guest.bus
    (s.denied (stackStart.toNat + 4) memEnd.toNat)
  refine ⟨_, _, s.run_eq hg, ?_⟩
  refine
    { allocations := s.finished_allocations m hstop
      halted := rfl
      cursor := s.toNat_finalHeap m (s.blocks_reached_lt hg)
      printBuffer := s.finished_buffer _ _ m
      console := ?_
      status := Machine.closed_status (hstatus.trans hm.running) _
      entryPoint := hentry'.trans hentry
      droppedStores := hdropped'.trans hdropped
      size := hsize'.trans hsize
      strings := fun t ht => ?_
      frame := fun i hi hflag hout => ?_ }
  · rw [Machine.closed_console, finished_bus, Progress.foldl_delivered_console]
  · exact s.finished_string (by omega) hm.size_eq.symm hspace (hsize'.trans hsize)
      (fun i hi => Machine.closed_frame (by omega) fun _ => by omega) ht
  · rw [Machine.closed_frame hi hflag]
    exact s.finished_frame m hstop hi hout

namespace Outcome

variable {s : Script} {r : Report} {m' : Machine}

/-- A script leaves the two registers alone. -/
theorem shows (h : s.Outcome (stackStart.toNat + 4) memEnd.toNat m r m')
    (hm : m.Ready stackStart memEnd) : m'.Shows stackStart memEnd := by
  refine hm.shows.of_frame h.size fun i hlo hhi => ?_
  refine h.frame i (by omega) (fun _ => by omega) fun t ht => .inl ?_
  have hbelow := (Course.ofTexts_bounds ht).1
  have hio := hm.io_le
  omega

theorem cursor_cases (h : s.Outcome (stackStart.toNat + 4) memEnd.toNat m r m')
    (hm : m.Ready stackStart memEnd) : r.cursor = Address.null ∨ stackStart < r.cursor := by
  have hcursor := h.cursor
  have hreached := s.start_le_reached hm
  split at hcursor
  · exact .inl (UInt32.toNat_inj.mp hcursor)
  · exact .inr (UInt32.lt_iff_toNat_lt.mpr (by omega))

end Outcome

/-- A script on a ready machine, as every fresh machine is one, comes to its end
without a fault and leaves what its courses say. -/
theorem run_follows_courses (s : Script) :
    (∀ m : Machine, m.Fresh → ∃ stackStart memEnd, m.Ready stackStart memEnd) ∧
    ∀ (m : Machine) (stackStart memEnd : Address), m.Ready stackStart memEnd →
      ∃ r m', s.run m = .ok r m' ∧
        s.Outcome (stackStart.toNat + 4) memEnd.toNat m r m' :=
  ⟨fun _ hm => hm.ready, fun _ _ _ hm => s.run_outcome hm⟩

/-- A message with a zero in it, a block, a block that runs past the last address,
and a block that is then denied. -/
theorem run_follows_courses_saturating :
    let s : Script := ⟨["hi\x00there"], [3, 0xFFFFFFFF, 1]⟩
    let m := Machine.laidOut ⟨280, 256, 0⟩
    m.Ready 256 280 ∧ ∃ r m', s.run m = .ok r m' ∧
      r.allocations.map UInt32.toNat = [260, 269, 272] ∧ r.halted = true ∧
      r.cursor.toNat = 0xFFFFFFFF ∧ r.printBuffer.toList = [104, 105] ∧
      m'.console.toList = [104, 105, newline] ++ (outOfMemory ++ [newline]) ∧
      m'.status = .halted := by
  have hvalid : (⟨280, 256, 0⟩ : Layout).Valid := ⟨by decide, by decide, by decide⟩
  have hready : (Machine.laidOut ⟨280, 256, 0⟩).Ready 256 280 :=
    Machine.laidOut_ready hvalid
  obtain ⟨r, m', hrun, hout⟩ :=
    (run_follows_courses ⟨["hi\x00there"], [3, 0xFFFFFFFF, 1]⟩).2 _ _ _ hready
  refine ⟨hready, r, m', hrun, hout.allocations.trans ?_, hout.halted.trans ?_,
    hout.cursor.trans ?_, hout.printBuffer.trans ?_, hout.console.trans ?_,
    hout.status.trans ?_⟩
  all_goals decide

end Script

end FlatMachine
