import FlatMachine.Proofs.BootImage
import FlatMachine.Proofs.Devices
import FlatMachine.Session.Reply

/-!
# A machine under stores, told as a trace

Forget the machine and keep a list of the byte stores that were attempted. The
first one that raises the halt flag cuts the list in two, and the two parts say
everything: what was stored at the sink before the cut is the console, the last
store to a position up to the cut is the byte there, and what comes after the cut
is only counted.

The list itself needs no machine either, just the size of memory. A word is four
byte stores, and the one that leaves memory while the machine runs takes the rest
of its word with it. Once halted, a machine gets to all of them.

The proof has two halves. Taking steps one by one is the same as replaying the
attempted stores (`run_replays`), where the chunks handed back are put in front
of the console again. And replaying a list of stores is what the cut says, by
induction on the list with one case per fate of a store.
-/

namespace FlatMachine

/-- A byte store. -/
structure ByteStore where
  address : Address
  value : UInt8
deriving DecidableEq, Repr

/-- Whether a store raises the halt flag. -/
def ByteStore.halts (s : ByteStore) : Bool :=
  s.address = Register.haltFlag.address ∧ s.value ≠ 0

/-- The byte stores that a word is made of, lowest byte first. -/
def ByteStore.ofWord (a : Address) (w : UInt32) : List ByteStore :=
  [⟨a, w.toUInt8⟩, ⟨a + 1, (w >>> 8).toUInt8⟩, ⟨a + 2, (w >>> 16).toUInt8⟩,
    ⟨a + 3, (w >>> 24).toUInt8⟩]

/-- A step that stores, or takes what stores have put on the console. -/
inductive StoreStep where
  | store (a : Address) (b : UInt8)
  | storeWord (a : Address) (w : UInt32)
  | takeConsole
deriving DecidableEq, Repr

namespace StoreStep

/-- Takes a step, and answers with the bytes it hands back. -/
def run : StoreStep → Action Machine (List UInt8)
  | store a b => do
    Bus.store a b
    pure []
  | storeWord a w => do
    Bus.storeWord a w
    pure []
  | takeConsole => Machine.takeConsole

/-- The byte stores of a step. -/
def stores : StoreStep → List ByteStore
  | store a b => [⟨a, b⟩]
  | storeWord a w => ByteStore.ofWord a w
  | takeConsole => []

/-- What each of some steps answers, or the fault it ends in. -/
def outcomes (steps : List StoreStep) (m : Machine) : List (Except Fault (List UInt8)) :=
  (Session.run run (fun _ => ()) steps m).1.map Prod.fst

/-- The machine after some steps. -/
def final (steps : List StoreStep) (m : Machine) : Machine :=
  (Session.run run (fun _ => ()) steps m).2

/-- The bytes handed back, in order. -/
def handedBack (outcomes : List (Except Fault (List UInt8))) : List UInt8 :=
  (outcomes.filterMap Except.toOption).flatten

end StoreStep

namespace StoreTrace

/-- The stores of a step that a machine with `n` bytes gets to. While it runs, a
store outside memory is the last one. -/
def reached (n : Nat) : Bool → List ByteStore → List ByteStore
  | _, [] => []
  | halted, s :: ss =>
    if halted ∨ s.address.toNat < n then s :: reached n (halted || s.halts) ss else [s]

/-- The stores that a machine with `n` bytes gets to, step by step. -/
def attempts (n : Nat) : Bool → List StoreStep → List (List ByteStore)
  | _, [] => []
  | halted, t :: ts =>
    reached n halted t.stores ::
      attempts n (halted || (reached n halted t.stores).any ByteStore.halts) ts

/-- The stores before the one that halts. -/
def beforeHalt (trace : List ByteStore) : List ByteStore :=
  trace.takeWhile fun s => !s.halts

/-- The stores up to the one that halts, with it. -/
def throughHalt (trace : List ByteStore) : List ByteStore :=
  beforeHalt trace ++ (trace.dropWhile fun s => !s.halts).take 1

/-- The stores after the one that halts. -/
def afterHalt (trace : List ByteStore) : List ByteStore :=
  (trace.dropWhile fun s => !s.halts).drop 1

/-- The values stored at the sink, in order. -/
def sunk (trace : List ByteStore) : List UInt8 :=
  (trace.filter fun s => s.address = Register.sink.address).map ByteStore.value

/-- The last value stored at a position. -/
def lastAt (trace : List ByteStore) (i : Nat) : Option UInt8 :=
  ((trace.filter fun s => s.address.toNat = i).getLast?).map ByteStore.value

end StoreTrace

/-! ## One step -/

/-- The machine after an attempted store, whatever becomes of it. -/
def Machine.attempt (m : Machine) (s : ByteStore) : Machine :=
  match m.status with
  | .halted => { m with droppedStores := m.droppedStores + 1 }
  | .running => if s.address.toNat < m.memory.size then m.stored s.address s.value else m

/-- Byte stores one after another. -/
def ByteStore.storeAll : List ByteStore → Action Machine Unit
  | [] => pure ()
  | s :: ss => do
    Bus.store s.address s.value
    storeAll ss

/-- The halt flag lies in memory, so a store that would halt is never lost. -/
theorem ByteStore.halts_of_outside {s : ByteStore} {n : Nat} (hn : 12 < n)
    (hout : n ≤ s.address.toNat) : s.halts = false := by
  refine decide_eq_false ?_
  rintro ⟨haddr, -⟩
  rw [haddr] at hout
  exact absurd hout (Nat.not_le_of_lt hn)

namespace Machine

variable {m : Machine} {s : ByteStore}

theorem isHalted_of_halted (h : m.status = .halted) : m.isHalted = true := by
  rw [isHalted, h]
  rfl

theorem isHalted_of_running (h : m.status = .running) : m.isHalted = false := by
  rw [isHalted, h]
  rfl

theorem attempt_halted (h : m.status = .halted) :
    m.attempt s = { m with droppedStores := m.droppedStores + 1 } := by
  simp only [attempt, h]

theorem attempt_inside (h : m.status = .running)
    (hin : s.address.toNat < m.memory.size) :
    m.attempt s = m.stored s.address s.value := by
  simp only [attempt, h]
  exact if_pos hin

theorem attempt_outside (h : m.status = .running)
    (hout : m.memory.size ≤ s.address.toNat) : m.attempt s = m := by
  simp only [attempt, h]
  exact if_neg (Nat.not_lt_of_le hout)

@[simp] theorem size_attempt : (m.attempt s).memory.size = m.memory.size := by
  unfold attempt
  split
  · rfl
  · split
    · exact size_stored
    · rfl

theorem isHalted_stored (h : m.status = .running) :
    (m.stored s.address s.value).isHalted = s.halts := by
  unfold isHalted stored ByteStore.halts
  by_cases hh : s.address = Register.haltFlag.address ∧ s.value ≠ 0
  · simp only [if_pos hh, decide_eq_true hh]
    rfl
  · simp only [if_neg hh, decide_eq_false hh, h]
    rfl

theorem size_replay (ss : List ByteStore) (m : Machine) :
    (ss.foldl attempt m).memory.size = m.memory.size := by
  induction ss generalizing m with
  | nil => rfl
  | cons s ss ih => rw [List.foldl_cons, ih, size_attempt]

end Machine

namespace StoreTrace

/-- The address at which a step breaks off, if it does. -/
def breakAt (n : Nat) : Bool → List ByteStore → Option Address
  | _, [] => none
  | halted, s :: ss =>
    if halted ∨ s.address.toNat < n then breakAt n (halted || s.halts) ss
    else some s.address

/-- How a step ends on a machine. -/
def ending (at? : Option Address) (m : Machine) : EStateM.Result Fault Machine Unit :=
  match at? with
  | none => .ok () m
  | some a => .error (.storeByte a) m

theorem storeAll_eq (ss : List ByteStore) (m : Machine) :
    ByteStore.storeAll ss m = ending (breakAt m.memory.size m.isHalted ss)
      ((reached m.memory.size m.isHalted ss).foldl Machine.attempt m) := by
  induction ss generalizing m with
  | nil => rfl
  | cons s ss ih =>
      cases hstatus : m.status with
      | halted =>
          have hh := Machine.isHalted_of_halted hstatus
          have hattempt := Machine.attempt_halted (s := s) hstatus
          have hnext : (m.attempt s).isHalted = true := by
            rw [hattempt]
            exact hh
          rw [ByteStore.storeAll, Action.bind_ok (Machine.store_halted hstatus),
            ← hattempt, ih, hnext, Machine.size_attempt, hh, reached, breakAt,
            if_pos (.inl rfl), if_pos (.inl rfl), List.foldl_cons, Bool.true_or]
      | running =>
          have hr := Machine.isHalted_of_running hstatus
          rcases Nat.lt_or_ge s.address.toNat m.memory.size with hin | hout
          · have hattempt := Machine.attempt_inside hstatus hin
            have hnext : (m.attempt s).isHalted = s.halts := by
              rw [hattempt]
              exact Machine.isHalted_stored hstatus
            rw [ByteStore.storeAll,
              Action.bind_ok (Machine.store_running hstatus hin), ← hattempt, ih,
              hnext, Machine.size_attempt, hr, reached, breakAt, if_pos (.inr hin),
              if_pos (.inr hin), List.foldl_cons, Bool.false_or]
          · have hnot : ¬ (false = true ∨ s.address.toNat < m.memory.size) := by
              rintro (hf | hlt)
              · cases hf
              · omega
            rw [hr, reached, breakAt, if_neg hnot, if_neg hnot, List.foldl_cons,
              List.foldl_nil, Machine.attempt_outside hstatus hout,
              ByteStore.storeAll]
            exact Action.bind_error (Machine.store_outside hstatus hout)

/-- What a step answers, with the machine it leaves. -/
def answer (t : StoreStep) (m : Machine) : Except Fault (List UInt8) × Machine :=
  match t.run m with
  | .ok bs m' => (.ok bs, m')
  | .error e m' => (.error e, m')

theorem outcomes_cons (t : StoreStep) (ts : List StoreStep) (m : Machine) :
    StoreStep.outcomes (t :: ts) m =
      (answer t m).1 :: StoreStep.outcomes ts (answer t m).2 := by
  cases hrun : t.run m with
  | ok bs m' =>
      simp only [StoreStep.outcomes, answer, Session.run, hrun, List.map_cons]
  | error e m' =>
      simp only [StoreStep.outcomes, answer, Session.run, hrun, List.map_cons]

theorem final_cons (t : StoreStep) (ts : List StoreStep) (m : Machine) :
    StoreStep.final (t :: ts) m = StoreStep.final ts (answer t m).2 := by
  cases hrun : t.run m with
  | ok bs m' => simp only [StoreStep.final, answer, Session.run, hrun]
  | error e m' => simp only [StoreStep.final, answer, Session.run, hrun]

theorem length_outcomes (steps : List StoreStep) (m : Machine) :
    (StoreStep.outcomes steps m).length = steps.length := by
  induction steps generalizing m with
  | nil => rfl
  | cons t ts ih => rw [outcomes_cons, List.length_cons, List.length_cons, ih]

theorem step_at {steps : List StoreStep} {k : Nat} {t : StoreStep}
    (h : steps[k]? = some t) (m : Machine) :
    (StoreStep.outcomes steps m)[k]? =
        some (answer t (StoreStep.final (steps.take k) m)).1 ∧
      StoreStep.final (steps.take (k + 1)) m =
        (answer t (StoreStep.final (steps.take k) m)).2 := by
  induction steps generalizing k m with
  | nil => cases h
  | cons t' ts ih =>
      cases k with
      | zero =>
          cases h
          rw [outcomes_cons, List.take_succ_cons, final_cons]
          exact ⟨rfl, rfl⟩
      | succ k =>
          rw [List.getElem?_cons_succ] at h
          rw [outcomes_cons, List.take_succ_cons, List.take_succ_cons, final_cons, final_cons,
            List.getElem?_cons_succ]
          exact ih h _

theorem run_eq_storeAll {t : StoreStep} (ht : t ≠ .takeConsole) :
    t.run = ByteStore.storeAll t.stores >>= fun _ => pure [] := by
  cases t with
  | store a b =>
      simp only [StoreStep.run, StoreStep.stores, ByteStore.storeAll, bind_assoc,
        pure_bind]
  | storeWord a w =>
      have h₂ : a + 1 + 1 = a + 2 := by rw [UInt32.add_assoc]; rfl
      have h₃ : a + 2 + 1 = a + 3 := by rw [UInt32.add_assoc]; rfl
      simp only [StoreStep.run, StoreStep.stores, ByteStore.ofWord,
        ByteStore.storeAll, Bus.storeWord, Word.toBytes_eq, Bus.storeBytes, h₂, h₃]
  | takeConsole => exact absurd rfl ht

theorem answer_eq {t : StoreStep} (ht : t ≠ .takeConsole) (m : Machine) :
    answer t m =
      ((match breakAt m.memory.size m.isHalted t.stores with
        | none => .ok []
        | some a => .error (.storeByte a)),
        (reached m.memory.size m.isHalted t.stores).foldl Machine.attempt m) := by
  have hall := storeAll_eq t.stores m
  unfold answer
  rw [run_eq_storeAll ht]
  cases hbreak : breakAt m.memory.size m.isHalted t.stores with
  | none =>
      rw [hbreak] at hall
      rw [Action.bind_ok hall]
      rfl
  | some a =>
      rw [hbreak] at hall
      rw [Action.bind_error hall]

end StoreTrace

/-! ## Replaying a trace -/

namespace Machine

variable {m : Machine} {s : ByteStore}

/-- The machine with more bytes in front of its console. -/
def behind (m : Machine) (bs : List UInt8) : Machine :=
  { m with console := bs.toArray ++ m.console }

theorem attempt_behind (m : Machine) (s : ByteStore) (bs : List UInt8) :
    (m.behind bs).attempt s = (m.attempt s).behind bs := by
  cases hstatus : m.status with
  | halted =>
      rw [attempt_halted hstatus, attempt_halted (m := m.behind bs) hstatus]
      rfl
  | running =>
      rcases Nat.lt_or_ge s.address.toNat m.memory.size with hin | hout
      · rw [attempt_inside hstatus hin,
          attempt_inside (m := m.behind bs) hstatus hin]
        unfold stored behind
        split
        · rw [Array.append_push]
        · rfl
      · rw [attempt_outside hstatus hout,
          attempt_outside (m := m.behind bs) hstatus hout]

theorem replay_behind (ss : List ByteStore) (m : Machine) (bs : List UInt8) :
    ss.foldl attempt (m.behind bs) = (ss.foldl attempt m).behind bs := by
  induction ss generalizing m with
  | nil => rfl
  | cons s ss ih => rw [List.foldl_cons, List.foldl_cons, attempt_behind, ih]

theorem behind_nil (m : Machine) : m.behind [] = m := by
  unfold behind
  rw [Array.empty_append]

theorem behind_append (m : Machine) (bs cs : List UInt8) :
    (m.behind cs).behind bs = m.behind (bs ++ cs) := by
  have hconsole : bs.toArray ++ (cs.toArray ++ m.console) =
      (bs ++ cs).toArray ++ m.console := by
    rw [← Array.append_assoc, ← List.append_toArray]
  simp only [behind, hconsole]

theorem isHalted_attempt (hn : 12 < m.memory.size) (s : ByteStore) :
    (m.attempt s).isHalted = (m.isHalted || s.halts) := by
  cases hstatus : m.status with
  | halted =>
      rw [attempt_halted hstatus, isHalted_of_halted hstatus, Bool.true_or]
      exact isHalted_of_halted hstatus
  | running =>
      rw [isHalted_of_running hstatus, Bool.false_or]
      rcases Nat.lt_or_ge s.address.toNat m.memory.size with hin | hout
      · rw [attempt_inside hstatus hin, isHalted_stored hstatus]
      · rw [attempt_outside hstatus hout, isHalted_of_running hstatus,
          ByteStore.halts_of_outside hn hout]

theorem isHalted_replay (ss : List ByteStore) (m : Machine)
    (hn : 12 < m.memory.size) :
    (ss.foldl attempt m).isHalted = (m.isHalted || ss.any ByteStore.halts) := by
  induction ss generalizing m with
  | nil => rw [List.foldl_nil, List.any_nil, Bool.or_false]
  | cons s ss ih =>
      rw [List.foldl_cons, ih (m.attempt s) (by rw [size_attempt]; exact hn),
        isHalted_attempt hn, List.any_cons, Bool.or_assoc]

end Machine

namespace StoreTrace

open StoreStep

/-- Taking steps is replaying the stores they get to, once the chunks handed back
are put in front of the console again. -/
theorem run_replays (steps : List StoreStep) (m : Machine)
    (hn : 12 < m.memory.size) :
    (final steps m).behind (handedBack (outcomes steps m)) =
      (attempts m.memory.size m.isHalted steps).flatten.foldl Machine.attempt m := by
  induction steps generalizing m with
  | nil => exact Machine.behind_nil m
  | cons t ts ih =>
      rw [outcomes_cons, final_cons, attempts, List.flatten_cons, List.foldl_append]
      by_cases ht : t = .takeConsole
      · -- The chunk handed back was the console all along.
        subst ht
        have hcons : ∀ rest, handedBack ((answer .takeConsole m).1 :: rest) =
            m.console.toList ++ handedBack rest := fun _ => rfl
        have hback : m = (answer .takeConsole m).2.behind m.console.toList := by
          show m = { m with console := m.console.toList.toArray ++ #[] }
          rw [Array.append_empty, Array.toArray_toList]
        rw [hcons, ← Machine.behind_append, ih (answer .takeConsole m).2 hn,
          ← Machine.replay_behind, ← hback]
        show _ = (attempts m.memory.size (m.isHalted || false) ts).flatten.foldl _ m
        rw [Bool.or_false]
        rfl
      · have hans := answer_eq ht m
        have hstate : (answer t m).2 = (reached m.memory.size m.isHalted
            t.stores).foldl Machine.attempt m := by rw [hans]
        have hcons : ∀ rest, handedBack ((answer t m).1 :: rest) =
            handedBack rest := by
          intro rest
          rw [hans]
          cases breakAt m.memory.size m.isHalted t.stores <;> rfl
        rw [hcons, ih (answer t m).2 (by rw [hstate, Machine.size_replay]; exact hn),
          hstate, Machine.size_replay, Machine.isHalted_replay _ m hn]

/-! ## What a replayed trace shows

Induction on the trace. A store that halts ends the interesting part, one outside
memory changes nothing, and any other moves on to a machine that still runs. -/

theorem beforeHalt_cons_of_halts {s : ByteStore} (hs : s.halts = true)
    (trace : List ByteStore) : beforeHalt (s :: trace) = [] :=
  List.takeWhile_cons_of_neg (by rw [hs]; decide)

theorem beforeHalt_cons {s : ByteStore} (hs : s.halts = false)
    (trace : List ByteStore) : beforeHalt (s :: trace) = s :: beforeHalt trace :=
  List.takeWhile_cons_of_pos (by rw [hs]; rfl)

theorem throughHalt_cons_of_halts {s : ByteStore} (hs : s.halts = true)
    (trace : List ByteStore) : throughHalt (s :: trace) = [s] := by
  rw [throughHalt, beforeHalt_cons_of_halts hs,
    List.dropWhile_cons_of_neg (by rw [hs]; decide)]
  rfl

theorem throughHalt_cons {s : ByteStore} (hs : s.halts = false)
    (trace : List ByteStore) : throughHalt (s :: trace) = s :: throughHalt trace := by
  rw [throughHalt, beforeHalt_cons hs,
    List.dropWhile_cons_of_pos (by rw [hs]; rfl), throughHalt]
  rfl

theorem afterHalt_cons_of_halts {s : ByteStore} (hs : s.halts = true)
    (trace : List ByteStore) : afterHalt (s :: trace) = trace := by
  rw [afterHalt, List.dropWhile_cons_of_neg (by rw [hs]; decide)]
  rfl

theorem afterHalt_cons {s : ByteStore} (hs : s.halts = false)
    (trace : List ByteStore) : afterHalt (s :: trace) = afterHalt trace := by
  rw [afterHalt, List.dropWhile_cons_of_pos (by rw [hs]; rfl), afterHalt]

theorem sunk_cons (s : ByteStore) (trace : List ByteStore) :
    sunk (s :: trace) = sunk [s] ++ sunk trace := by
  simp only [sunk, ← List.map_append, ← List.filter_append, List.singleton_append]

theorem sunk_of_halts {s : ByteStore} (hs : s.halts = true) : sunk [s] = [] := by
  have haddr : s.address = Register.haltFlag.address := (of_decide_eq_true hs).1
  rw [sunk, List.filter_cons_of_neg]
  · rfl
  · rw [haddr]
    decide

/-- A later store to the same position hides an earlier one. -/
theorem lastAt_cons (s : ByteStore) (trace : List ByteStore) (i : Nat) (b : UInt8) :
    (lastAt (s :: trace) i).getD b =
      (lastAt trace i).getD (if s.address.toNat = i then s.value else b) := by
  unfold lastAt
  by_cases hi : s.address.toNat = i
  · rw [List.filter_cons_of_pos (by exact decide_eq_true hi), List.getLast?_cons,
      if_pos hi]
    cases (trace.filter fun s => s.address.toNat = i).getLast? <;> rfl
  · rw [List.filter_cons_of_neg (by rw [decide_eq_false hi]; decide), if_neg hi]

end StoreTrace

namespace Machine

variable {m : Machine} {s : ByteStore}

theorem replay_halted (trace : List ByteStore) (h : m.status = .halted) :
    trace.foldl attempt m =
      { m with droppedStores := m.droppedStores + trace.length } := by
  induction trace generalizing m with
  | nil => rfl
  | cons s trace ih =>
      rw [List.foldl_cons, attempt_halted h, ih (by exact h), List.length_cons]
      simp only [Nat.add_assoc, Nat.add_comm 1]

theorem attempt_console (h : m.status = .running) (hn : 12 < m.memory.size) :
    (m.attempt s).console.toList = m.console.toList ++ StoreTrace.sunk [s] := by
  unfold StoreTrace.sunk
  by_cases hsink : s.address = Register.sink.address
  · have hin : s.address.toNat < m.memory.size := by
      rw [hsink]
      exact Nat.lt_trans (by decide) hn
    rw [attempt_inside h hin, stored,
      List.filter_cons_of_pos (by exact decide_eq_true hsink)]
    simp only [if_pos hsink, Array.toList_push, List.filter_nil, List.map_cons,
      List.map_nil]
  · rw [List.filter_cons_of_neg (by rw [decide_eq_false hsink]; decide),
      List.filter_nil, List.map_nil, List.append_nil]
    rcases Nat.lt_or_ge s.address.toNat m.memory.size with hin | hout
    · rw [attempt_inside h hin, stored]
      simp only [if_neg hsink]
    · rw [attempt_outside h hout]

theorem attempt_bytes (h : m.status = .running) (i : Nat) :
    (m.attempt s).memory.bytes[i]? =
      m.memory.bytes[i]?.map fun b => if s.address.toNat = i then s.value else b := by
  by_cases hi : s.address.toNat = i
  · subst hi
    simp only [if_pos]
    rcases Nat.lt_or_ge s.address.toNat m.memory.size with hin | hout
    · rw [attempt_inside h hin]
      rw [show (m.stored s.address s.value).memory.bytes[s.address.toNat]? =
        some s.value from Memory.overwrite_byte_self hin,
        Array.getElem?_eq_getElem hin]
      rfl
    · rw [attempt_outside h hout, Array.getElem?_eq_none hout]
      rfl
  · have hid : (m.memory.bytes[i]?.map fun b =>
        if s.address.toNat = i then s.value else b) = m.memory.bytes[i]? := by
      simp only [if_neg hi, Option.map_id']
    rw [hid]
    rcases Nat.lt_or_ge s.address.toNat m.memory.size with hin | hout
    · rw [attempt_inside h hin]
      exact stored_frame (Ne.symm hi)
    · rw [attempt_outside h hout]

theorem attempt_dropped (h : m.status = .running) :
    (m.attempt s).droppedStores = m.droppedStores := by
  rcases Nat.lt_or_ge s.address.toNat m.memory.size with hin | hout
  · rw [attempt_inside h hin, stored]
  · rw [attempt_outside h hout]

theorem status_of_isHalted (h : m.isHalted = true) : m.status = .halted :=
  beq_iff_eq.mp h

theorem status_of_not_isHalted (h : m.isHalted = false) : m.status = .running := by
  cases hstatus : m.status with
  | running => rfl
  | halted =>
      rw [isHalted_of_halted hstatus] at h
      cases h

open StoreTrace in
theorem replay_shows (trace : List ByteStore) (m : Machine)
    (h : m.status = .running) (hn : 12 < m.memory.size) :
    (trace.foldl attempt m).console.toList =
        m.console.toList ++ sunk (beforeHalt trace) ∧
      (∀ i : Nat, (trace.foldl attempt m).memory.bytes[i]? =
        m.memory.bytes[i]?.map fun b => (lastAt (throughHalt trace) i).getD b) ∧
      (trace.foldl attempt m).droppedStores =
        m.droppedStores + (afterHalt trace).length := by
  induction trace generalizing m with
  | nil =>
      refine ⟨(List.append_nil _).symm, fun i => ?_, rfl⟩
      exact Option.map_id'.symm
  | cons s trace ih =>
      have hflag := isHalted_attempt hn s
      rw [isHalted_of_running h, Bool.false_or] at hflag
      rw [List.foldl_cons]
      cases hs : s.halts with
      | true =>
          rw [hs] at hflag
          rw [replay_halted trace (status_of_isHalted hflag),
            beforeHalt_cons_of_halts hs, throughHalt_cons_of_halts hs,
            afterHalt_cons_of_halts hs]
          refine ⟨?_, fun i => ?_, ?_⟩
          · rw [attempt_console h hn, sunk_of_halts hs]
            rfl
          · rw [attempt_bytes h]
            simp only [lastAt_cons]
            rfl
          · rw [attempt_dropped h]
      | false =>
          rw [hs] at hflag
          have hsize : 12 < (m.attempt s).memory.size := by
            rw [size_attempt]
            exact hn
          obtain ⟨hconsole, hbytes, hdropped⟩ :=
            ih (m.attempt s) (status_of_not_isHalted hflag) hsize
          rw [beforeHalt_cons hs, throughHalt_cons hs, afterHalt_cons hs]
          refine ⟨?_, fun i => ?_, ?_⟩
          · rw [hconsole, attempt_console h hn, sunk_cons s (beforeHalt trace),
              List.append_assoc]
          · rw [hbytes, attempt_bytes h, Option.map_map]
            simp only [lastAt_cons, Function.comp_def]
          · rw [hdropped, attempt_dropped h]

end Machine

namespace StoreTrace

open StoreStep

/-! ## Which steps fault -/

/-- A last store outside memory is not a first one inside. -/
theorem getLast?_of_inside {n : Nat} {s l : ByteStore} {rest : List ByteStore}
    (hl : (s :: rest).getLast? = some l) (hin : s.address.toNat < n)
    (hout : n ≤ l.address.toNat) : rest.getLast? = some l := by
  rw [List.getLast?_cons] at hl
  cases hlast : rest.getLast? with
  | some l' =>
      rw [hlast] at hl
      exact hl
  | none =>
      rw [hlast] at hl
      cases hl
      exact absurd hout (Nat.not_le_of_lt hin)

/-- A step breaks off at its last attempted store, if that one lies outside memory
and the machine has not halted before it. -/
theorem breakAt_eq_some_iff {n : Nat} (hn : 12 < n) (ss : List ByteStore)
    (halted : Bool) (a : Address) :
    breakAt n halted ss = some a ↔
      halted = false ∧ (∃ s, (reached n halted ss).getLast? = some s ∧
          n ≤ s.address.toNat ∧ s.address = a) ∧
        ∀ s ∈ reached n halted ss, s.halts = false := by
  induction ss generalizing halted with
  | nil =>
      simp only [breakAt, reached, List.getLast?_nil]
      constructor
      · intro h
        cases h
      · rintro ⟨-, ⟨s, hs, -⟩, -⟩
        cases hs
  | cons s ss ih =>
      rw [breakAt, reached]
      by_cases hgo : halted = true ∨ s.address.toNat < n
      · rw [if_pos hgo, if_pos hgo, ih, Bool.or_eq_false_iff]
        constructor
        · rintro ⟨⟨hh, hs⟩, ⟨l, hl, hout, ha⟩, hall⟩
          refine ⟨hh, ⟨l, ?_, hout, ha⟩, ?_⟩
          · rw [List.getLast?_cons, hl]
            rfl
          · intro x hx
            rcases List.mem_cons.mp hx with rfl | hmem
            · exact hs
            · exact hall x hmem
        · rintro ⟨hh, ⟨l, hl, hout, ha⟩, hall⟩
          have hin : s.address.toNat < n :=
            hgo.resolve_left (by rw [hh]; decide)
          exact ⟨⟨hh, hall s List.mem_cons_self⟩,
            ⟨l, getLast?_of_inside hl hin hout, hout, ha⟩,
            fun x hx => hall x (List.mem_cons_of_mem s hx)⟩
      · rw [if_neg hgo, if_neg hgo, Option.some.injEq]
        have hout : n ≤ s.address.toNat :=
          Nat.le_of_not_lt fun hlt => hgo (.inr hlt)
        constructor
        · intro ha
          refine ⟨Bool.eq_false_iff.mpr fun hh => hgo (.inl hh),
            ⟨s, rfl, hout, ha⟩, ?_⟩
          intro x hx
          rw [List.mem_singleton.mp hx]
          exact ByteStore.halts_of_outside hn hout
        · rintro ⟨-, ⟨l, hl, -, ha⟩, -⟩
          cases hl
          exact ha

theorem answer_error_iff (t : StoreStep) (m : Machine) (f : Fault) :
    (answer t m).1 = .error f ↔
      ∃ a, breakAt m.memory.size m.isHalted t.stores = some a ∧
        f = .storeByte a := by
  by_cases ht : t = .takeConsole
  · subst ht
    constructor
    · intro h
      cases h
    · rintro ⟨a, ha, -⟩
      cases ha
  · rw [answer_eq ht]
    cases breakAt m.memory.size m.isHalted t.stores with
    | none =>
        constructor
        · intro h
          cases h
        · rintro ⟨a, ha, -⟩
          cases ha
    | some a =>
        constructor
        · intro h
          cases h
          exact ⟨a, rfl, rfl⟩
        · rintro ⟨a', ha, rfl⟩
          cases ha
          rfl

theorem answer_state (t : StoreStep) (m : Machine) (hn : 12 < m.memory.size) :
    (answer t m).2.memory.size = m.memory.size ∧
      (answer t m).2.isHalted = (m.isHalted ||
        (reached m.memory.size m.isHalted t.stores).any ByteStore.halts) := by
  by_cases ht : t = .takeConsole
  · subst ht
    exact ⟨rfl, (Bool.or_false _).symm⟩
  · rw [answer_eq ht]
    exact ⟨Machine.size_replay _ m, Machine.isHalted_replay _ m hn⟩

theorem outcome_error_iff (steps : List StoreStep) (m : Machine)
    (hn : 12 < m.memory.size) (k : Nat) (f : Fault) :
    (outcomes steps m)[k]? = some (.error f) ↔
      m.isHalted = false ∧
        (∃ ss s, (attempts m.memory.size m.isHalted steps)[k]? = some ss ∧
          ss.getLast? = some s ∧ m.memory.size ≤ s.address.toNat ∧
          f = .storeByte s.address) ∧
        ∀ s ∈ ((attempts m.memory.size m.isHalted steps).take (k + 1)).flatten,
          s.halts = false := by
  induction steps generalizing m k with
  | nil =>
      constructor
      · intro h
        cases h
      · rintro ⟨-, ⟨ss, s, hss, -⟩, -⟩
        cases hss
  | cons t ts ih =>
      obtain ⟨hsize, hhalted⟩ := answer_state t m hn
      rw [outcomes_cons, attempts]
      cases k with
      | zero =>
          rw [List.getElem?_cons_zero, Option.some.injEq, answer_error_iff,
            List.getElem?_cons_zero, List.take_succ_cons, List.take_zero,
            List.flatten_cons, List.flatten_nil, List.append_nil]
          constructor
          · rintro ⟨a, ha, rfl⟩
            obtain ⟨hh, ⟨s, hs, hout, rfl⟩, hall⟩ :=
              (breakAt_eq_some_iff hn t.stores m.isHalted a).mp ha
            exact ⟨hh, ⟨_, s, rfl, hs, hout, rfl⟩, hall⟩
          · rintro ⟨hh, ⟨ss, s, hss, hs, hout, hf⟩, hall⟩
            cases hss
            exact ⟨s.address, (breakAt_eq_some_iff hn t.stores m.isHalted
              s.address).mpr ⟨hh, ⟨s, hs, hout, rfl⟩, hall⟩, hf⟩
      | succ k =>
          rw [List.getElem?_cons_succ, ih (answer t m).2 (by rw [hsize]; exact hn),
            hsize, hhalted, List.getElem?_cons_succ, List.take_succ_cons,
            List.flatten_cons, Bool.or_eq_false_iff, List.any_eq_false]
          simp only [Bool.not_eq_true]
          constructor
          · rintro ⟨⟨hh, hfirst⟩, hex, hrest⟩
            refine ⟨hh, hex, fun s hs => ?_⟩
            rcases List.mem_append.mp hs with hl | hr
            · exact hfirst s hl
            · exact hrest s hr
          · rintro ⟨hh, hex, hall⟩
            exact ⟨⟨hh, fun s hs => hall s (List.mem_append_left _ hs)⟩, hex,
              fun s hs => hall s (List.mem_append_right _ hs)⟩

/-! ## The whole run -/

/-- Stores on a fresh machine, read off the trace of the attempted ones. Whatever
was handed back and is still on the console was stored at the sink before the
halt, memory holds what was last stored up to it, and later stores are counted. A
step faults where its last store leaves memory, unless a store has halted the
machine by then. Taking the console hands back all of it, and leaves it empty. -/
theorem stores_follow_trace {m : Machine} (hm : m.Fresh) (steps : List StoreStep) :
    let tries := attempts m.memory.size false steps
    let trace := tries.flatten
    let m' := final steps m
    handedBack (outcomes steps m) ++ m'.console.toList = sunk (beforeHalt trace) ∧
    (∀ i : Nat, m'.memory.bytes[i]? =
      m.memory.bytes[i]?.map fun b => (lastAt (throughHalt trace) i).getD b) ∧
    (m'.status = .halted ↔ ∃ s ∈ trace, s.halts = true) ∧
    m'.droppedStores = (afterHalt trace).length ∧
    (outcomes steps m).length = steps.length ∧
    (∀ (k : Nat) (f : Fault), (outcomes steps m)[k]? = some (.error f) ↔
      (∃ ss s, tries[k]? = some ss ∧ ss.getLast? = some s ∧
        m.memory.size ≤ s.address.toNat ∧ f = .storeByte s.address) ∧
      ∀ s ∈ (tries.take (k + 1)).flatten, s.halts = false) ∧
    (∀ k : Nat, steps[k]? = some .takeConsole →
      (outcomes steps m)[k]? = some (.ok (final (steps.take k) m).console.toList) ∧
      (final (steps.take (k + 1)) m).console = #[]) := by
  obtain ⟨stackStart, memEnd, hready⟩ := hm.ready
  have hn : 12 < m.memory.size := Nat.lt_of_lt_of_le (by decide) hready.size_ge
  have hrun := Machine.isHalted_of_running hready.running
  have hreplay := run_replays steps m hn
  rw [hrun] at hreplay
  obtain ⟨hconsole, hbytes, hdropped⟩ := Machine.replay_shows
    (attempts m.memory.size false steps).flatten m hready.running hn
  have hhalted := Machine.isHalted_replay
    (attempts m.memory.size false steps).flatten m hn
  rw [← hreplay] at hconsole hbytes hdropped hhalted
  rw [hm.console_eq] at hconsole
  rw [hm.dropped_eq, Nat.zero_add] at hdropped
  rw [hrun, Bool.false_or] at hhalted
  refine ⟨?_, hbytes, ?_, hdropped, length_outcomes steps m, fun k f => ?_, fun k hk => ?_⟩
  · rw [← List.nil_append (sunk _), ← hconsole, Machine.behind, Array.toList_append]
  · rw [← List.any_eq_true, ← hhalted]
    exact ⟨Machine.isHalted_of_halted, Machine.status_of_isHalted⟩
  · rw [outcome_error_iff steps m hn k f, hrun]
    exact and_iff_right rfl
  · obtain ⟨houtcome, hleft⟩ := step_at hk m
    exact ⟨houtcome, congrArg Machine.console hleft⟩

/-- A byte for the console, a word that leaves memory half way, a word whose third
byte halts, and a store outside memory that is then only counted. -/
theorem stores_follow_trace_straddling :
    let m := Machine.laidOut ⟨264, 256, 0⟩
    let steps := [.store 0 65, .storeWord 262 0x04030201, .storeWord 10 0x02010000,
      .takeConsole, .store 0xFFFFFFFF 7]
    m.Fresh ∧
      handedBack (outcomes steps m) ++ (final steps m).console.toList = [65] ∧
      (final steps m).memory.bytes[263]? = some 2 ∧
      (final steps m).status = .halted ∧
      (final steps m).droppedStores = 2 ∧
      (outcomes steps m)[1]? = some (.error (.storeByte 264)) ∧
      (outcomes steps m)[3]? = some (.ok [65]) := by
  have hvalid : (⟨264, 256, 0⟩ : Layout).Valid := ⟨by decide, by decide, by decide⟩
  have hfresh : (Machine.laidOut ⟨264, 256, 0⟩).Fresh :=
    .ofLayout (Machine.ofLayout_of_valid hvalid)
  obtain ⟨hconsole, hbytes, hhalted, hdropped, -, hfaults, htaken⟩ := stores_follow_trace
    hfresh [.store 0 65, .storeWord 262 0x04030201, .storeWord 10 0x02010000,
      .takeConsole, .store 0xFFFFFFFF 7]
  rw [Machine.size_laidOut] at hconsole hdropped hhalted
  refine ⟨hfresh, ?_, ?_, ?_, ?_, ?_, ?_⟩
  · exact hconsole
  · have hzero : (Machine.laidOut ⟨264, 256, 0⟩).memory.bytes[263]? = some 0 :=
      Machine.laidOut_zero (.inr (by decide)) (by decide)
    rw [hbytes, Machine.size_laidOut, hzero]
    rfl
  · exact hhalted.mpr (by decide)
  · exact hdropped
  · rw [hfaults, Machine.size_laidOut]
    exact ⟨⟨_, ⟨264, 3⟩, rfl, rfl, by decide, rfl⟩, by decide⟩
  · have hshown : (final [.store 0 65, .storeWord 262 0x04030201, .storeWord 10 0x02010000]
        (Machine.laidOut ⟨264, 256, 0⟩)).console.toList = [65] := by decide +kernel
    have htake := (htaken 3 rfl).1
    simp only [List.take_succ_cons, List.take_zero] at htake
    rw [htake, hshown]

end StoreTrace

end FlatMachine
