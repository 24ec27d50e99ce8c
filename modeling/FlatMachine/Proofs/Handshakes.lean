import FlatMachine.Proofs.MachineEffects
import FlatMachine.Proofs.Printing

/-!
# The list and the print buffer over whole sessions

Requests, triggers and prints share one request slot, one result slot and one count
of look-ups, so what the slots hold depends on everything that came before. The way
to say it without the slots is to look back along the history: the result is the item
at the index that was last requested when the look-up was last triggered. A whole
look-up is a request and a trigger, and a print is one whole look-up after another,
so a history is a list of these two signals and nothing more.

A print is a loop without a bound. `Copies` is that loop, and it ends because an
index past the last item reads as zero and there are fewer items than indices: the
walk meets the end of the items before it can wrap around. The bound that `print`
runs with is therefore never felt.
-/

namespace FlatMachine

/-! ## Looking back along a history -/

/-- The two halves of a look-up. -/
inductive Signal where
  | request (i : UInt32)
  | trigger
deriving DecidableEq, Repr

namespace Signal

/-- The index last requested, zero if none was. The newest signal is first. -/
def requested : List Signal → UInt32
  | [] => 0
  | request i :: _ => i
  | trigger :: earlier => requested earlier

/-- The index that the latest look-up was for, if there has been one. The newest
signal is first. -/
def lookedUp : List Signal → Option UInt32
  | [] => none
  | trigger :: earlier => some (requested earlier)
  | request _ :: earlier => lookedUp earlier

/-- Whole look-ups at `n` indices in a row. -/
def walk (i : UInt32) (n : Nat) : List Signal :=
  (List.range n).flatMap fun k => [request (i + UInt32.ofNat k), trigger]

end Signal

namespace LookupList

/-- The item at an index, zero past the end. -/
def item (items : List UInt8) (i : UInt32) : UInt8 :=
  items.getD i.toNat 0

/-- The items from an index up to the first zero, or to the end. -/
def stringAt (items : List UInt8) (i : UInt32) : List UInt8 :=
  (items.drop i.toNat).takeWhile (· ≠ 0)

/-- What the result slot holds after some signals, the newest first. -/
def shown (items : List UInt8) (signals : List Signal) : UInt8 :=
  (Signal.lookedUp signals).elim 0 (item items)

variable {items : List UInt8} {i : UInt32}

theorem length_stringAt_le (items : List UInt8) (i : UInt32) :
    (stringAt items i).length ≤ items.length - i.toNat := by
  rw [← List.length_drop]
  exact (List.takeWhile_sublist _).length_le

/-- Fewer items than indices: a string ends before the index wraps. -/
theorem toNat_stringAt_end (hitems : items.length < Address.space) :
    (i + UInt32.ofNat (stringAt items i).length).toNat =
      i.toNat + (stringAt items i).length := by
  have hi := Address.toNat_lt_space i
  have hlen := length_stringAt_le items i
  have hword : (UInt32.ofNat (stringAt items i).length).toNat = (stringAt items i).length :=
    Address.toNat_ofNat_of_lt (by omega)
  rw [Address.toNat_add_of_lt (by omega), hword]

theorem getD_takeWhile_length (items : List UInt8) :
    items.getD (items.takeWhile (· ≠ 0)).length 0 = 0 := by
  induction items with
  | nil => rfl
  | cons b items ih =>
      by_cases hb : b = 0
      · simp [hb]
      · simpa [hb] using ih

theorem item_stringAt_end (hitems : items.length < Address.space) :
    item items (i + UInt32.ofNat (stringAt items i).length) = 0 := by
  rw [item, toNat_stringAt_end hitems, List.getD_eq_getElem?_getD, ← List.getElem?_drop,
    ← List.getD_eq_getElem?_getD]
  exact getD_takeWhile_length _

theorem lookup_fst (l : LookupList) (i : UInt32) :
    (l.lookup i).1 = item l.items.toList i := by
  show l.items.getD i.toNat 0 = l.items.toList.getD i.toNat 0
  simp [Array.getD_eq_getD_getElem?]

end LookupList

/-! ## Prints end by themselves -/

namespace PrintPath

/-- The walk along a string with no bound on it: look up an index, stop at a zero,
and else keep the byte and go on. -/
inductive Copies : UInt32 → PrintPath → Nat → PrintPath → Prop
  | stop {i : UInt32} {p : PrintPath} (hzero : (p.list.lookup i).1 = 0) :
      Copies i p 0 ⟨(p.list.lookup i).2, p.buffer⟩
  | next {i : UInt32} {p p' : PrintPath} {n : Nat} (hbyte : (p.list.lookup i).1 ≠ 0)
      (hrest : Copies (i + 1)
        ⟨(p.list.lookup i).2, p.buffer.append (p.list.lookup i).1⟩ n p') :
      Copies i p (n + 1) p'

variable {p p' p'' : PrintPath} {i : UInt32} {n n' : Nat}

theorem Copies.unique (h : Copies i p n p') (h' : Copies i p n' p'') :
    n' = n ∧ p'' = p' := by
  induction h generalizing n' with
  | stop hzero =>
      cases h' with
      | stop => exact ⟨rfl, rfl⟩
      | next hbyte => exact absurd hzero hbyte
  | next hbyte _ ih =>
      cases h' with
      | stop hzero => exact absurd hzero hbyte
      | next _ hrest =>
          obtain ⟨rfl, rfl⟩ := ih hrest
          exact ⟨rfl, rfl⟩

theorem printFrom_succ (budget count : Nat) :
    printFrom (budget + 1) i count p =
      if (p.list.lookup i).1 = 0 then (count, ⟨(p.list.lookup i).2, p.buffer⟩)
      else printFrom budget (i + 1) (count + 1)
        ⟨(p.list.lookup i).2, p.buffer.append (p.list.lookup i).1⟩ :=
  rfl

/-- A walk that has not used up its budget has ended by itself. -/
theorem copies_of_printFrom {budget count : Nat}
    (h : printFrom budget i count p = (n, p')) (hn : n < count + budget) :
    ∃ k, n = count + k ∧ Copies i p k p' := by
  induction budget generalizing i count p with
  | zero =>
      cases h
      exact absurd hn (Nat.lt_irrefl _)
  | succ budget ih =>
      rw [printFrom_succ] at h
      by_cases hzero : (p.list.lookup i).1 = 0
      · rw [if_pos hzero] at h
        cases h
        exact ⟨0, rfl, .stop hzero⟩
      · rw [if_neg hzero] at h
        obtain ⟨k, rfl, hk⟩ := ih h (by omega)
        exact ⟨k + 1, by omega, .next hzero hk⟩

open LookupList (stringAt)

theorem print_eq (hsize : p.list.size < Address.space) (i : UInt32) :
    p.print i =
      ((stringAt p.list.items.toList i).length,
        ⟨{ p.list with
            request := i + UInt32.ofNat (stringAt p.list.items.toList i).length
            result := 0
            lookups := p.list.lookups + (stringAt p.list.items.toList i).length + 1 },
          ⟨p.buffer.bytes ++ (stringAt p.list.items.toList i).toArray⟩⟩) := by
  -- The items are read as a memory would be.
  have hshort : (Memory.stringFrom ⟨p.list.items⟩ i.toNat).length < p.list.size + 1 := by
    have := Memory.length_stringFrom ⟨p.list.items⟩ i.toNat
    have hsame : Memory.size ⟨p.list.items⟩ = p.list.size := rfl
    omega
  have hrun := printFrom_run (m := ⟨p.list.items⟩) _ i 0 p.list p.buffer rfl hsize hshort
  rw [Nat.zero_add] at hrun
  exact hrun

theorem copies_print (hsize : p.list.size < Address.space) (i : UInt32) :
    Copies i p (p.print i).1 (p.print i).2 := by
  have hshort : (p.print i).1 < 0 + (p.list.size + 1) := by
    have hlen : (stringAt p.list.items.toList i).length ≤ p.list.size - i.toNat :=
      LookupList.length_stringAt_le _ i
    rw [print_eq hsize]
    show (stringAt p.list.items.toList i).length < _
    omega
  have hrun : printFrom (p.list.size + 1) i 0 p = ((p.print i).1, (p.print i).2) := rfl
  obtain ⟨k, hk, hcopies⟩ := copies_of_printFrom hrun hshort
  rw [hk, Nat.zero_add]
  exact hcopies

theorem copies_iff (hsize : p.list.size < Address.space) :
    Copies i p n p' ↔ n = (p.print i).1 ∧ p' = (p.print i).2 := by
  constructor
  · intro h
    exact (copies_print hsize i).unique h
  · rintro ⟨rfl, rfl⟩
    exact copies_print hsize i

end PrintPath

/-! ## What a session has done -/

/-- What each step of a session gave back. -/
def Session.replies {σ τ α : Type} (step : τ → Action σ α) (ts : List τ) (s : σ) :
    List (Except Fault α) :=
  (Session.run step (fun _ => ()) ts s).1.map Prod.fst

/-- A step on the list and the buffer, with what it gave back. -/
abbrev ListEvent := ListStep × Except Fault Reply

namespace ListEvent

/-- The signals that a step sends. A print that has copied `n` bytes has looked at one
index more. -/
def signals : ListEvent → List Signal
  | (.setRequest i, _) => [.request i]
  | (.trigger, _) => [.trigger]
  | (.lookup i, _) => [.request i, .trigger]
  | (.print i, .ok (.number n)) => Signal.walk i (n + 1)
  | _ => []

def lookups : ListEvent → Nat
  | (.trigger, _) => 1
  | (.lookup _, _) => 1
  | (.print _, .ok (.number n)) => n + 1
  | _ => 0

/-- The bytes that a step hands back from the buffer. -/
def flushed : ListEvent → List UInt8
  | (.flush, .ok (.bytes bs)) => bs
  | _ => []

/-- The bytes that a step puts in the buffer, in a list of the given items. -/
def appended (items : List UInt8) : ListEvent → List UInt8
  | (.append b, _) => [b]
  | (.print i, _) => LookupList.stringAt items i
  | _ => []

def totalLookups (events : List ListEvent) : Nat :=
  events.foldr (fun e n => e.lookups + n) 0

theorem totalLookups_concat (events : List ListEvent) (e : ListEvent) :
    totalLookups (events ++ [e]) = totalLookups events + e.lookups := by
  induction events with
  | nil => simp [totalLookups]
  | cons e' events ih =>
      simp only [totalLookups, List.cons_append, List.foldr_cons] at ih ⊢
      omega

end ListEvent

namespace PrintPath

open LookupList (item stringAt shown)

/-- The list and the buffer are what the steps so far have made of them. -/
structure Accounts (items : List UInt8) (events : List ListEvent) (p : PrintPath) : Prop where
  items_eq : p.list.items.toList = items
  request_eq : p.list.request = Signal.requested (events.flatMap ListEvent.signals).reverse
  result_eq : p.list.result = shown items (events.flatMap ListEvent.signals).reverse
  lookups_eq : p.list.lookups = ListEvent.totalLookups events
  bytes_eq : events.flatMap ListEvent.flushed ++ p.buffer.toList =
    events.flatMap (ListEvent.appended items)

theorem accounts_nil (items : List UInt8) : Accounts items [] ⟨.ofList items, {}⟩ :=
  ⟨rfl, rfl, rfl, rfl, rfl⟩

variable {items : List UInt8} {events : List ListEvent} {p : PrintPath}

theorem Accounts.size_lt (h : Accounts items events p)
    (hitems : items.length < Address.space) : p.list.size < Address.space := by
  rw [← h.items_eq] at hitems
  exact hitems

/-- One more event. What it has to get right are the two slots, the count and the
buffer, each against what the event says of itself. -/
theorem Accounts.concat (h : Accounts items events p) {e : ListEvent} {p' : PrintPath}
    (hitems : p'.list.items = p.list.items)
    (hrequest : p'.list.request =
      Signal.requested (e.signals.reverse ++ (events.flatMap ListEvent.signals).reverse))
    (hresult : p'.list.result =
      shown items (e.signals.reverse ++ (events.flatMap ListEvent.signals).reverse))
    (hlookups : p'.list.lookups = p.list.lookups + e.lookups)
    (hbytes : e.flushed ++ p'.buffer.toList = p.buffer.toList ++ e.appended items) :
    Accounts items (events ++ [e]) p' where
  items_eq := hitems ▸ h.items_eq
  request_eq := by simpa using hrequest
  result_eq := by simpa using hresult
  lookups_eq := by rw [ListEvent.totalLookups_concat, hlookups, h.lookups_eq]
  bytes_eq := by
    simp only [List.flatMap_append, List.flatMap_singleton, List.append_assoc]
    rw [hbytes, ← List.append_assoc, h.bytes_eq]

theorem Accounts.idle (h : Accounts items events p) {e : ListEvent}
    (hsignals : e.signals = []) (hlookups : e.lookups = 0) (hflushed : e.flushed = [])
    (happended : e.appended items = []) : Accounts items (events ++ [e]) p := by
  refine h.concat rfl ?_ ?_ ?_ ?_
  · rw [hsignals]
    exact h.request_eq
  · rw [hsignals]
    exact h.result_eq
  · rw [hlookups]
    rfl
  · rw [hflushed, happended, List.append_nil]
    rfl

theorem Accounts.print_eq (h : Accounts items events p)
    (hitems : items.length < Address.space) (i : UInt32) :
    p.print i =
      ((stringAt items i).length,
        ⟨{ p.list with
            request := i + UInt32.ofNat (stringAt items i).length
            result := 0
            lookups := p.list.lookups + (stringAt items i).length + 1 },
          ⟨p.buffer.bytes ++ (stringAt items i).toArray⟩⟩) := by
  have hprint := PrintPath.print_eq (h.size_lt hitems) i
  rwa [h.items_eq] at hprint

theorem reverse_walk (i : UInt32) (n : Nat) :
    (Signal.walk i (n + 1)).reverse =
      .trigger :: .request (i + UInt32.ofNat n) :: (Signal.walk i n).reverse := by
  simp [Signal.walk, List.range_succ]

theorem Accounts.step (h : Accounts items events p) (hitems : items.length < Address.space)
    {t : ListStep} (ht : ∀ items', t ≠ .replace items') :
    Accounts items (events ++ [(t, t.run.outcome p)]) (t.run.final p) := by
  cases t with
  | replace items' => exact absurd rfl (ht items')
  | setRequest i => exact h.concat rfl rfl h.result_eq rfl (List.append_nil _).symm
  | trigger =>
      refine h.concat rfl h.request_eq ?_ rfl (List.append_nil _).symm
      show (p.list.lookup p.list.request).1 =
        item items (Signal.requested (events.flatMap ListEvent.signals).reverse)
      rw [LookupList.lookup_fst, h.items_eq, h.request_eq]
  | lookup i =>
      refine h.concat rfl rfl ?_ rfl (List.append_nil _).symm
      show (p.list.lookup i).1 = item items i
      rw [LookupList.lookup_fst, h.items_eq]
  | print i =>
      have hrun : (ListStep.print i).run p = .ok (.number (p.print i).1) (p.print i).2 := rfl
      rw [Action.outcome_ok hrun, Action.final_ok hrun, h.print_eq hitems]
      refine h.concat rfl ?_ ?_ rfl ?_
      · rw [ListEvent.signals, reverse_walk]
        rfl
      · -- The last look-up of a print is the one that met the end of the string.
        rw [ListEvent.signals, reverse_walk]
        exact (LookupList.item_stringAt_end hitems).symm
      · simp [ListEvent.flushed, ListEvent.appended, PrintBuffer.toList]
  | append b =>
      refine h.concat rfl h.request_eq h.result_eq rfl ?_
      show (p.buffer.bytes.push b).toList = _
      rw [Array.toList_push]
      rfl
  | flush => exact h.concat rfl h.request_eq h.result_eq rfl rfl
  | readResult => exact h.idle rfl rfl rfl rfl
  | extent => exact h.idle rfl rfl rfl rfl
  | inspectList => exact h.idle rfl rfl rfl rfl
  | buffer => exact h.idle rfl rfl rfl rfl
  | inspectBuffer => exact h.idle rfl rfl rfl rfl

theorem Accounts.after (h : Accounts items events p) (hitems : items.length < Address.space)
    {ts : List ListStep} (hts : ∀ items', .replace items' ∉ ts) :
    Accounts items (events ++ ts.zip (Session.replies ListStep.run ts p))
      (Session.after ListStep.run ts p) := by
  induction ts generalizing events p with
  | nil => simpa using h
  | cons t ts ih =>
      have hstep := h.step hitems (t := t) fun items' ht =>
        hts items' (ht ▸ List.mem_cons_self)
      have hrest := ih hstep fun items' ht => hts items' (List.mem_cons_of_mem t ht)
      simpa [Session.replies, Session.run_cons] using hrest

/-- Any steps on a fresh list and a fresh buffer, in any order, as long as the list is
not replaced. The items stay. The result is the item at the index that was requested
when a look-up was last triggered, so a request alone changes nothing and a whole
look-up depends on nothing before it. Look-ups are counted one by one, and every byte
that was appended or printed comes out of the buffer once, in order. Every print ends
by itself, after the string at its index. -/
theorem interleavings_accounted {items : List UInt8} (hitems : items.length < Address.space)
    {steps : List ListStep} (hsteps : ∀ items', .replace items' ∉ steps) :
    let start : PrintPath := ⟨.ofList items, {}⟩
    let events := steps.zip (Session.replies ListStep.run steps start)
    let p := Session.after ListStep.run steps start
    p.list.items.toList = items ∧
    p.list.result = shown items (events.flatMap ListEvent.signals).reverse ∧
    p.list.lookups = ListEvent.totalLookups events ∧
    events.flatMap ListEvent.flushed ++ p.buffer.toList =
      events.flatMap (ListEvent.appended items) ∧
    ListStep.readResult.run p = .ok (.number p.list.result.toNat) p ∧
    ∀ i,
      ((ListStep.setRequest i).run.final p).list.result = p.list.result ∧
      (ListStep.lookup i).run.outcome p = .ok (.number (item items i).toNat) ∧
      ∃ p', (ListStep.print i).run p = .ok (.number (stringAt items i).length) p' ∧
        ∀ n p'', Copies i p n p'' ↔ n = (stringAt items i).length ∧ p'' = p' := by
  intro start events p
  have h : Accounts items events p := (accounts_nil items).after hitems hsteps
  refine ⟨h.items_eq, h.result_eq, h.lookups_eq, h.bytes_eq, rfl, fun i =>
    ⟨rfl, ?_, (p.print i).2, ?_, fun n p'' => ?_⟩⟩
  · show Except.ok (Reply.number (p.list.lookup i).1.toNat) = _
    rw [LookupList.lookup_fst, h.items_eq]
  · show EStateM.Result.ok (Reply.number (p.print i).1) (p.print i).2 = _
    rw [h.print_eq hitems]
  · rw [copies_iff (h.size_lt hitems), h.print_eq hitems]

/-- A trigger before any request, a print between a request and its trigger, and a
request at the end that is never triggered. -/
theorem interleavings_accounted_half_done :
    let items : List UInt8 := [104, 105, 0, 33]
    let steps : List ListStep := [.trigger, .setRequest 3, .print 0, .append 7, .flush,
      .setRequest 3, .trigger, .print 1, .lookup 3, .setRequest 0]
    let start : PrintPath := ⟨.ofList items, {}⟩
    let events := steps.zip (Session.replies ListStep.run steps start)
    let p := Session.after ListStep.run steps start
    items.length < Address.space ∧ (∀ items', .replace items' ∉ steps) ∧
      p.list.result = 33 ∧ p.list.lookups = 8 ∧
      events.flatMap ListEvent.flushed = [104, 105, 7] ∧
      events.flatMap ListEvent.flushed ++ p.buffer.toList = [104, 105, 7, 105] ∧
      (ListStep.lookup 1).run.outcome p = .ok (.number 105) ∧
      ∃ p', Copies 0 p 2 p' := by
  intro items steps start events p
  have hitems : items.length < Address.space := by decide
  have hsteps : ∀ items', .replace items' ∉ steps := by simp [steps]
  obtain ⟨-, hresult, hlookups, hbytes, -, hnext⟩ := interleavings_accounted hitems hsteps
  obtain ⟨-, hlookup, -⟩ := hnext 1
  obtain ⟨-, -, p', -, hcopies⟩ := hnext 0
  exact ⟨hitems, hsteps, hresult.trans (by decide +kernel), hlookups.trans (by decide +kernel),
    by decide +kernel, hbytes.trans (by decide +kernel), hlookup,
    p', (hcopies 2 p').mpr ⟨rfl, rfl⟩⟩

end PrintPath

end FlatMachine
