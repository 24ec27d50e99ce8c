import FlatMachine.Host.PrintPath
import FlatMachine.Proofs.Devices

/-!
# Strings in memory and the two ways to print them

A string in memory is what stands before the first zero byte. The guest prints it
byte by byte while it reads on, the host copies it out of a snapshot, and both
come to the same list, `stringFrom`.

The guest's way is the delicate one, because each byte it prints overwrites the
sink, and the sink is memory too. It gets away with it: the sink is the lowest
address of all, so the byte overwritten is never one that is still to be read.
-/

namespace FlatMachine

namespace Memory

/-- The bytes from a position up to the first zero, or to the end of memory. -/
def stringFrom (m : Memory) (i : Nat) : List UInt8 :=
  (m.toList.drop i).takeWhile (· ≠ 0)

variable {m m' : Memory} {i : Nat} {b : UInt8}

theorem drop_eq_cons (h : m.bytes[i]? = some b) :
    m.toList.drop i = b :: m.toList.drop (i + 1) := by
  obtain ⟨hi, rfl⟩ := Array.getElem?_eq_some_iff.mp h
  exact List.drop_eq_getElem_cons hi

theorem stringFrom_zero (h : m.bytes[i]? = some 0) : m.stringFrom i = [] := by
  rw [stringFrom, drop_eq_cons h, List.takeWhile_cons_of_neg (by decide)]

theorem stringFrom_cons (h : m.bytes[i]? = some b) (hb : b ≠ 0) :
    m.stringFrom i = b :: m.stringFrom (i + 1) := by
  rw [stringFrom, drop_eq_cons h, List.takeWhile_cons_of_pos (by exact decide_eq_true hb)]
  rfl

theorem stringFrom_outside (h : m.size ≤ i) : m.stringFrom i = [] := by
  have hdrop : m.toList.drop i = [] := List.drop_eq_nil_of_le h
  rw [stringFrom, hdrop, List.takeWhile_nil]

theorem length_stringFrom (m : Memory) (i : Nat) :
    (m.stringFrom i).length ≤ m.size - i := by
  refine Nat.le_trans (List.takeWhile_sublist _).length_le ?_
  rw [List.length_drop]
  exact Nat.le_refl _

/-- A string depends on the bytes from its start on. -/
theorem stringFrom_congr (h : ∀ j, i ≤ j → m'.bytes[j]? = m.bytes[j]?) :
    m'.stringFrom i = m.stringFrom i := by
  have hdrop : m'.toList.drop i = m.toList.drop i := by
    apply List.ext_getElem?
    intro k
    rw [List.getElem?_drop, List.getElem?_drop, toList, toList,
      Array.getElem?_toList, Array.getElem?_toList]
    exact h (i + k) (Nat.le_add_right i k)
  rw [stringFrom, stringFrom, hdrop]

/-- A block with a zero behind it reads as a string. -/
theorem stringFrom_eq {s : List UInt8} (hbytes : ∀ k, k < s.length →
    m.bytes[i + k]? = s[k]?) (hzero : m.bytes[i + s.length]? = some 0) :
    m.stringFrom i = s.takeWhile (· ≠ 0) := by
  induction s generalizing i with
  | nil => exact stringFrom_zero hzero
  | cons b s ih =>
      have hb : m.bytes[i]? = some b := hbytes 0 (Nat.succ_pos _)
      have hnext : m.stringFrom (i + 1) = s.takeWhile (· ≠ 0) := by
        refine ih (fun k hk => ?_) ?_
        · rw [Nat.add_assoc, Nat.add_comm 1 k]
          exact hbytes (k + 1) (Nat.succ_lt_succ hk)
        · rw [Nat.add_assoc, Nat.add_comm 1 s.length]
          exact hzero
      by_cases hz : b = 0
      · subst hz
        rw [stringFrom_zero hb, List.takeWhile_cons_of_neg (by decide)]
      · rw [stringFrom_cons hb hz, hnext,
          List.takeWhile_cons_of_pos (by exact decide_eq_true hz)]

end Memory

/-! ## The guest's output -/

namespace Machine

variable {m m' : Machine} {a : Address}

/-- The machine after writing characters to the sink. -/
def emit (m : Machine) (cs : List UInt8) : Machine :=
  cs.foldl (fun m c => m.stored Register.sink.address c) m

theorem emit_append (m : Machine) (cs ds : List UInt8) :
    m.emit (cs ++ ds) = (m.emit cs).emit ds :=
  List.foldl_append

theorem emit_cons (m : Machine) (c : UInt8) (cs : List UInt8) :
    m.emit (c :: cs) = (m.stored Register.sink.address c).emit cs :=
  rfl

theorem emit_status (m : Machine) (cs : List UInt8) : (m.emit cs).status = m.status := by
  induction cs generalizing m with
  | nil => rfl
  | cons c cs ih =>
      have hflag : ¬ (Register.sink.address = Register.haltFlag.address ∧ c ≠ 0) :=
        fun h => absurd h.1 (by decide)
      rw [emit_cons, ih]
      simp only [stored, if_neg hflag]

theorem emit_console (m : Machine) (cs : List UInt8) :
    (m.emit cs).console.toList = m.console.toList ++ cs := by
  induction cs generalizing m with
  | nil => exact (List.append_nil _).symm
  | cons c cs ih =>
      have hpush : (m.stored Register.sink.address c).console = m.console.push c := by
        simp only [stored, if_true]
      rw [emit_cons, ih, hpush, Array.toList_push, List.append_assoc]
      rfl

@[simp] theorem emit_entryPoint (m : Machine) (cs : List UInt8) :
    (m.emit cs).entryPoint = m.entryPoint := by
  induction cs generalizing m with
  | nil => rfl
  | cons c cs ih => exact ih (m.stored Register.sink.address c)

@[simp] theorem emit_dropped (m : Machine) (cs : List UInt8) :
    (m.emit cs).droppedStores = m.droppedStores := by
  induction cs generalizing m with
  | nil => rfl
  | cons c cs ih => exact ih (m.stored Register.sink.address c)

@[simp] theorem size_emit (m : Machine) (cs : List UInt8) :
    (m.emit cs).memory.size = m.memory.size := by
  induction cs generalizing m with
  | nil => rfl
  | cons c cs ih => rw [emit_cons, ih, size_stored]

/-- Output overwrites the sink and nothing else. -/
theorem emit_frame (m : Machine) (cs : List UInt8) {i : Nat} (hi : 0 < i) :
    (m.emit cs).memory.bytes[i]? = m.memory.bytes[i]? := by
  induction cs generalizing m with
  | nil => rfl
  | cons c cs ih => rw [emit_cons, ih, stored_frame (Nat.ne_of_gt hi)]

theorem Ready.emit {stackStart memEnd : Address} (h : m.Ready stackStart memEnd)
    (cs : List UInt8) : (m.emit cs).Ready stackStart memEnd :=
  h.of_frame ((emit_status m cs).trans h.running) (size_emit m cs)
    fun _ hlo _ => emit_frame m cs (by omega)

theorem writeChar_run (c : UInt8) (h : m.status = .running)
    (hsize : 0 < m.memory.size) : writeChar c m = .ok () (m.emit [c]) :=
  store_running h hsize

theorem writeChars_run (cs : List UInt8) (h : m.status = .running)
    (hsize : 0 < m.memory.size) : writeChars cs m = .ok () (m.emit cs) := by
  induction cs generalizing m with
  | nil => rfl
  | cons c cs ih =>
      rw [writeChars, Action.bind_ok (writeChar_run c h hsize),
        ih ((emit_status m [c]).trans h) (by rw [size_emit]; exact hsize)]
      rfl

theorem printLine_run (s : List UInt8) (h : m.status = .running)
    (hsize : 0 < m.memory.size) :
    printLine s m = .ok () (m.emit (s.takeWhile (· ≠ 0) ++ [newline])) := by
  rw [printLine, Action.bind_ok (writeChars_run _ h hsize), emit_append]
  exact writeChar_run newline ((emit_status m _).trans h)
    (by rw [size_emit]; exact hsize)

/-- Printing while reading: the bytes still to be read are above the sink. -/
theorem writeStringFrom_run (n : Nat) (h : m.status = .running)
    (hspace : m.memory.size < Address.space)
    (hn : (m.memory.stringFrom a.toNat).length < n)
    (hend : a.toNat + (m.memory.stringFrom a.toNat).length < m.memory.size) :
    writeStringFrom n a m = .ok () (m.emit (m.memory.stringFrom a.toNat)) := by
  induction n generalizing m a with
  | zero => exact absurd hn (Nat.not_lt_zero _)
  | succ n ih =>
      have hin : a.toNat < m.memory.bytes.size :=
        Nat.lt_of_le_of_lt (Nat.le_add_right _ _) hend
      have hbyte := Array.getElem?_eq_getElem hin
      rw [writeStringFrom, Action.bind_ok (load_eq hbyte)]
      by_cases hz : m.memory.bytes[a.toNat] = 0
      · rw [if_pos hz, Memory.stringFrom_zero (hbyte.trans (congrArg some hz))]
        rfl
      · have hcons := Memory.stringFrom_cons hbyte hz
        rw [hcons, List.length_cons] at hn hend
        have hnext : (a + 1).toNat = a.toNat + 1 :=
          Address.toNat_succ_of_lt (by omega)
        have hrest : (m.emit [m.memory.bytes[a.toNat]]).memory.stringFrom
            (a + 1).toNat = m.memory.stringFrom (a.toNat + 1) := by
          rw [hnext]
          exact Memory.stringFrom_congr fun j hj => emit_frame m _ (by omega)
        rw [if_neg hz,
          Action.bind_ok (writeChar_run _ h (Nat.lt_of_le_of_lt (Nat.zero_le _) hin)),
          ih ((emit_status m _).trans h) (by rw [size_emit]; exact hspace)
            (by rw [hrest]; omega) (by rw [hrest, hnext, size_emit]; omega),
          hrest, hcons]
        rfl

theorem printLineAt_run (h : m.status = .running)
    (hspace : m.memory.size < Address.space)
    (hend : a.toNat + (m.memory.stringFrom a.toNat).length < m.memory.size) :
    printLineAt a m =
      .ok () (m.emit (m.memory.stringFrom a.toNat ++ [newline])) := by
  rw [printLineAt, Action.bind_ok (writeStringFrom_run _ h hspace (by omega) hend),
    emit_append]
  exact writeChar_run newline ((emit_status m _).trans h)
    (by rw [size_emit]; omega)

/-- A machine that has complained that memory has run out, and has halted. -/
def exhausted (m : Machine) : Machine :=
  (m.emit (outOfMemory ++ [newline])).stored Register.haltFlag.address 1

theorem exhausted_status (m : Machine) : m.exhausted.status = .halted := by
  simp only [exhausted, stored, true_and]
  exact if_pos (by decide)

theorem exhausted_console (m : Machine) :
    m.exhausted.console.toList = m.console.toList ++ (outOfMemory ++ [newline]) := by
  have hsink : Register.haltFlag.address ≠ Register.sink.address := by decide
  rw [← emit_console]
  simp only [exhausted, stored, if_neg hsink]

theorem exhausted_keeps (m : Machine) :
    m.exhausted.entryPoint = m.entryPoint ∧
      m.exhausted.droppedStores = m.droppedStores ∧
      m.exhausted.memory.size = m.memory.size := by
  simp only [exhausted, stored_entryPoint, emit_entryPoint, stored_dropped,
    emit_dropped, size_stored, size_emit, and_self]

theorem exhausted_frame {i : Nat} (hi : 0 < i) (hflag : i ≠ 12) :
    m.exhausted.memory.bytes[i]? = m.memory.bytes[i]? :=
  (stored_frame hflag).trans (emit_frame m _ hi)

theorem exhausted_shows {stackStart memEnd : Address} (h : m.Shows stackStart memEnd) :
    m.exhausted.Shows stackStart memEnd :=
  h.of_frame m.exhausted_keeps.2.2 fun i hlo hhi => exhausted_frame (by omega) (by omega)

/-- The machine at the end of what a guest does, which is exhausted if a request was
denied. -/
def closed (m : Machine) (denied : Bool) : Machine :=
  if denied then m.exhausted else m

theorem closed_console (m : Machine) (denied : Bool) :
    (m.closed denied).console.toList =
      m.console.toList ++ if denied then outOfMemory ++ [newline] else [] := by
  cases denied with
  | true => exact m.exhausted_console
  | false => exact (List.append_nil _).symm

theorem closed_status (h : m.status = .running) (denied : Bool) :
    (m.closed denied).status = if denied then .halted else .running := by
  cases denied with
  | true => exact m.exhausted_status
  | false => exact h

theorem closed_keeps (m : Machine) (denied : Bool) :
    (m.closed denied).entryPoint = m.entryPoint ∧
      (m.closed denied).droppedStores = m.droppedStores ∧
      (m.closed denied).memory.size = m.memory.size := by
  cases denied with
  | true => exact m.exhausted_keeps
  | false => exact ⟨rfl, rfl, rfl⟩

theorem closed_frame {denied : Bool} {i : Nat} (hi : 0 < i)
    (hflag : denied = true → i ≠ 12) :
    (m.closed denied).memory.bytes[i]? = m.memory.bytes[i]? := by
  cases denied with
  | true => exact exhausted_frame hi (hflag rfl)
  | false => rfl

theorem haltOutOfMemory_run (h : m.status = .running) (hsize : 12 < m.memory.size) :
    haltOutOfMemory m = .ok {} m.exhausted := by
  have hcut : outOfMemory.takeWhile (· ≠ 0) = outOfMemory := by decide
  have hprint := printLine_run outOfMemory h (Nat.lt_trans (by decide) hsize)
  rw [hcut] at hprint
  have hhalt := store_running (a := Register.haltFlag.address) (b := 1)
    ((emit_status m (outOfMemory ++ [newline])).trans h)
    (by rw [size_emit]; exact hsize)
  rw [haltOutOfMemory, Action.bind_ok hprint, halt, Action.bind_ok hhalt]
  rfl

end Machine

/-! ## The host's copy -/

namespace PrintPath

/-- The host copies the string at an index, with one look-up more than there are
bytes in it. The last one reads the zero behind the string, in memory or past it. -/
theorem printFrom_run {m : Memory} (n : Nat) (i : UInt32) (count : Nat)
    (list : LookupList) (buffer : PrintBuffer) (hitems : list.items = m.bytes)
    (hspace : m.size < Address.space) (hn : (m.stringFrom i.toNat).length < n) :
    printFrom n i count ⟨list, buffer⟩ =
      (count + (m.stringFrom i.toNat).length,
        ⟨{ list with
            request := i + UInt32.ofNat (m.stringFrom i.toNat).length
            result := 0
            lookups := list.lookups + (m.stringFrom i.toNat).length + 1 },
          ⟨buffer.bytes ++ (m.stringFrom i.toNat).toArray⟩⟩) := by
  induction n generalizing i count list buffer with
  | zero => exact absurd hn (Nat.not_lt_zero _)
  | succ n ih =>
      have hlook : list.lookup i = (m.bytes.getD i.toNat 0,
          ⟨list.items, i, m.bytes.getD i.toNat 0, list.lookups + 1⟩) := by
        rw [← hitems]
        rfl
      -- A zero read ends the walk, whether it is in memory or past its end.
      have hstop : m.bytes.getD i.toNat 0 = 0 →
          printFrom (n + 1) i count ⟨list, buffer⟩ = (count + 0,
            ⟨⟨list.items, i + 0, 0, list.lookups + 0 + 1⟩, ⟨buffer.bytes ++ #[]⟩⟩) := by
        intro hzero
        simp [printFrom, hlook, hzero]
      cases hbyte : m.bytes[i.toNat]? with
      | none =>
          have hzero : m.bytes.getD i.toNat 0 = 0 := by
            simp [Array.getD_eq_getD_getElem?, hbyte]
          rw [Memory.stringFrom_outside (Array.getElem?_eq_none_iff.mp hbyte)]
          exact hstop hzero
      | some b =>
          have hget : m.bytes.getD i.toNat 0 = b := by
            simp [Array.getD_eq_getD_getElem?, hbyte]
          by_cases hz : b = 0
          · subst hz
            rw [Memory.stringFrom_zero hbyte]
            exact hstop hget
          · have hcons := Memory.stringFrom_cons hbyte hz
            have hin : i.toNat < m.size := (Array.getElem?_eq_some_iff.mp hbyte).1
            have hnext : (i + 1).toNat = i.toNat + 1 :=
              Address.toNat_succ_of_lt (by omega)
            rw [hcons, List.length_cons] at hn ⊢
            have hrest := ih (i + 1) (count + 1) ⟨list.items, i, b, list.lookups + 1⟩
              (buffer.append b) hitems (by rw [hnext]; omega)
            rw [hnext] at hrest
            have hbuffer : buffer.bytes.push b ++ (m.stringFrom (i.toNat + 1)).toArray =
                buffer.bytes ++ (b :: m.stringFrom (i.toNat + 1)).toArray := by
              apply Array.toList_inj.mp
              simp
            simp only [printFrom, hlook, hget, if_neg hz]
            rw [hrest, PrintBuffer.append, hbuffer, Address.succ_add_ofNat]
            simp only [Nat.add_assoc, Nat.add_comm 1]

end PrintPath

end FlatMachine
