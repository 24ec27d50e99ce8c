import FlatMachine.Proofs.Actions
import FlatMachine.Proofs.Setup

/-!
# What the devices make of a store

A store on a machine goes one of three ways: a halted machine counts it, a store
outside memory faults, and any other lands in memory and then at the device its
address belongs to. Only two addresses have a device that reacts. Away from those a
block of bytes is stored as the host would write it, but byte by byte: a block that
sticks out of memory is stored up to the end before it faults.

A load never changes anything, and a word that the guest loads byte by byte is the
word that the host loads whole. That is what makes the registers of a `Ready`
machine the ones its guest goes by.
-/

namespace FlatMachine

namespace Address

/-- An address at which no device reacts to a store. -/
def Inert (a : Address) : Prop :=
  a ≠ Register.sink.address ∧ a ≠ Register.haltFlag.address

instance (a : Address) : Decidable a.Inert :=
  inferInstanceAs (Decidable (_ ∧ _))

theorem inert_of_lt {a : Address} (h : 12 < a.toNat) : a.Inert := by
  refine ⟨?_, ?_⟩
  · rintro rfl
    exact absurd h (by decide)
  · rintro rfl
    exact absurd h (by decide)

section Block

variable {a : Address} {n : Nat} (h : ∀ k, k < n + 1 → (a + UInt32.ofNat k).Inert)
include h

theorem Inert.head : a.Inert := by
  simpa using h 0 (Nat.succ_pos n)

theorem Inert.tail : ∀ k, k < n → (a + 1 + UInt32.ofNat k).Inert := by
  intro k hk
  rw [succ_add_ofNat]
  exact h (k + 1) (Nat.succ_lt_succ hk)

end Block

end Address

namespace Machine

variable {m m' : Machine} {a : Address} {b : UInt8}

/-- The machine after a store that it takes. -/
def stored (m : Machine) (a : Address) (b : UInt8) : Machine :=
  { m with
    memory := m.memory.overwrite a [b]
    console := if a = Register.sink.address then m.console.push b else m.console
    status := if a = Register.haltFlag.address ∧ b ≠ 0 then .halted else m.status }

theorem onMemory_ok {α : Type} {x : Action Memory α} {b : α} {memory : Memory}
    (h : x m.memory = .ok b memory) : onMemory x m = .ok b { m with memory } := by
  simp only [onMemory, h]

theorem onMemory_error {α : Type} {x : Action Memory α} {e : Fault} {memory : Memory}
    (h : x m.memory = .error e memory) : onMemory x m = .error e { m with memory } := by
  simp only [onMemory, h]

theorem store_halted (h : m.status = .halted) :
    Bus.store a b m = .ok () { m with droppedStores := m.droppedStores + 1 } := by
  have hget : getStatus m = .ok .halted m := by rw [getStatus, h]
  show store a b m = _
  rw [store, Action.bind_ok hget]
  rfl

theorem store_outside (h : m.status = .running) (hout : m.memory.size ≤ a.toNat) :
    Bus.store a b m = .error (.storeByte a) m := by
  have hget : getStatus m = .ok .running m := by rw [getStatus, h]
  show store a b m = _
  rw [store, Action.bind_ok hget]
  exact Action.bind_error (onMemory_error (Memory.store_of_le hout))

theorem store_running (h : m.status = .running) (hin : a.toNat < m.memory.size) :
    Bus.store a b m = .ok () (m.stored a b) := by
  have hget : getStatus m = .ok .running m := by rw [getStatus, h]
  show store a b m = _
  rw [store, Action.bind_ok hget]
  refine (Action.bind_ok (onMemory_ok (Memory.store_of_lt hin))).trans ?_
  unfold react stored
  by_cases hsink : a = Register.sink.address
  · -- The sink is not the halt flag, so the two effects never meet.
    have hflag : ¬ (a = Register.haltFlag.address ∧ b ≠ 0) := by
      rw [hsink]
      exact fun hboth => absurd hboth.1 (by decide)
    simp only [if_pos hsink, if_neg hflag]
  · by_cases hflag : a = Register.haltFlag.address ∧ b ≠ 0
    · simp only [if_neg hsink, if_pos hflag]
    · simp only [if_neg hsink, if_neg hflag]

@[simp] theorem stored_entryPoint : (m.stored a b).entryPoint = m.entryPoint := rfl

@[simp] theorem stored_dropped : (m.stored a b).droppedStores = m.droppedStores := rfl

@[simp] theorem size_stored : (m.stored a b).memory.size = m.memory.size :=
  Memory.size_overwrite _ _ _

theorem stored_frame {i : Nat} (h : i ≠ a.toNat) :
    (m.stored a b).memory.bytes[i]? = m.memory.bytes[i]? :=
  Memory.overwrite_frame (by rw [List.length_singleton]; omega)

/-- The machine with a block of bytes in its memory. -/
def withBlock (m : Machine) (a : Address) (bs : List UInt8) : Machine :=
  { m with memory := m.memory.overwrite a bs }

@[simp] theorem size_withBlock (m : Machine) (a : Address) (bs : List UInt8) :
    (m.withBlock a bs).memory.size = m.memory.size :=
  Memory.size_overwrite _ _ _

theorem withBlock_window {bs : List UInt8} {c k : Nat} (hc : c < Address.space)
    (hfit : c + bs.length ≤ m.memory.size) (hk : k < bs.length) :
    (m.withBlock (UInt32.ofNat c) bs).memory.bytes[c + k]? = bs[k]? := by
  have hnat := Address.toNat_ofNat_of_lt hc
  have hwindow : (m.memory.overwrite (UInt32.ofNat c) bs).bytes[
      (UInt32.ofNat c).toNat + k]? = bs[k]? :=
    Memory.overwrite_window (by rw [hnat]; exact hfit) hk
  rw [hnat] at hwindow
  exact hwindow

theorem withBlock_frame {bs : List UInt8} {c i : Nat} (hc : c < Address.space)
    (h : i < c ∨ c + bs.length ≤ i) :
    (m.withBlock (UInt32.ofNat c) bs).memory.bytes[i]? = m.memory.bytes[i]? :=
  Memory.overwrite_frame (by rw [Address.toNat_ofNat_of_lt hc]; exact h)

theorem withBlock_append {a' : Address} {bs cs : List UInt8}
    (h : a'.toNat = a.toNat + bs.length) :
    (m.withBlock a bs).withBlock a' cs = m.withBlock a (bs ++ cs) := by
  simp only [withBlock, Memory.overwrite_append h]

theorem withBlock_outside (h : m.memory.size ≤ a.toNat) (bs : List UInt8) :
    m.withBlock a bs = m := by
  rw [withBlock, Memory.overwrite_outside h]

/-- Where no device reacts a store is only a store. -/
theorem stored_inert (h : a.Inert) : m.stored a b = m.withBlock a [b] := by
  have hflag : ¬ (a = Register.haltFlag.address ∧ b ≠ 0) := fun hboth => h.2 hboth.1
  simp only [stored, withBlock, if_neg h.1, if_neg hflag]

theorem storeBytes_inert (bs : List UInt8) (hrun : m.status = .running)
    (hspace : m.memory.size < Address.space)
    (hinert : ∀ k, k < bs.length → (a + UInt32.ofNat k).Inert)
    (hfit : a.toNat + bs.length ≤ m.memory.size) :
    Bus.storeBytes a bs m = .ok () (m.withBlock a bs) := by
  induction bs generalizing m a with
  | nil => rfl
  | cons b bs ih =>
      rw [List.length_cons] at hfit
      have hnext : (a + 1).toNat = a.toNat + 1 :=
        Address.toNat_succ_of_lt (by omega)
      have hstore := store_running (b := b) hrun (show a.toNat < m.memory.size by omega)
      rw [stored_inert (Address.Inert.head hinert)] at hstore
      rw [Bus.storeBytes, Action.bind_ok hstore,
        ih (by exact hrun) (by rw [size_withBlock]; exact hspace)
          (Address.Inert.tail hinert) (by rw [size_withBlock, hnext]; omega),
        withBlock_append hnext]
      rfl

/-- A block that sticks out of memory is stored up to the end, and the fault is where
it first sticks out. -/
theorem storeBytes_past (bs : List UInt8) (hrun : m.status = .running)
    (hspace : m.memory.size < Address.space)
    (hinert : ∀ k, k < bs.length → (a + UInt32.ofNat k).Inert) (hne : bs ≠ [])
    (hpast : m.memory.size < a.toNat + bs.length) :
    Bus.storeBytes a bs m =
      .error (.storeByte (UInt32.ofNat (max a.toNat m.memory.size))) (m.withBlock a bs) := by
  induction bs generalizing m a with
  | nil => exact absurd rfl hne
  | cons b bs ih =>
      rw [List.length_cons] at hpast
      rcases Nat.lt_or_ge a.toNat m.memory.size with hin | hout
      · have hnext : (a + 1).toNat = a.toNat + 1 :=
          Address.toNat_succ_of_lt (by omega)
        have hmax : max (a.toNat + 1) m.memory.size = max a.toNat m.memory.size := by
          omega
        have hstore := store_running (b := b) hrun hin
        rw [stored_inert (Address.Inert.head hinert)] at hstore
        have hrest := ih (m := m.withBlock a [b]) (a := a + 1) hrun
          (by rw [size_withBlock]; exact hspace) (Address.Inert.tail hinert)
          (by rintro rfl; exact absurd hpast (by simp; omega))
          (by rw [size_withBlock, hnext]; omega)
        rw [size_withBlock, hnext, hmax, withBlock_append hnext] at hrest
        rw [Bus.storeBytes, Action.bind_ok hstore, hrest]
        rfl
      · rw [Bus.storeBytes, Action.bind_error (store_outside hrun hout),
          Nat.max_eq_left hout, UInt32.ofNat_toNat, withBlock_outside hout]

theorem storeBytes_run (bs : List UInt8) (hrun : m.status = .running)
    (hspace : m.memory.size < Address.space) (hlow : 12 < a.toNat)
    (hfit : a.toNat + bs.length ≤ m.memory.size) :
    Bus.storeBytes a bs m = .ok () (m.withBlock a bs) := by
  refine storeBytes_inert bs hrun hspace (fun k hk => ?_) hfit
  have hnat : (UInt32.ofNat k).toNat = k := Address.toNat_ofNat_of_lt (by omega)
  refine Address.inert_of_lt ?_
  rw [Address.toNat_add_of_lt (by omega)]
  omega

/-! ## Loads -/

theorem load_eq (h : m.memory.bytes[a.toNat]? = some b) :
    Bus.load a m = .ok b m := by
  show Action.reading (fun m => m.memory.load a) m = .ok b m
  simp only [Action.reading, Memory.load_eq h]

theorem load_outside (h : m.memory.size ≤ a.toNat) :
    Bus.load a m = .error (.loadByte a) m := by
  have hnone : m.memory.bytes[a.toNat]? = none := Array.getElem?_eq_none h
  show Action.reading (fun m => m.memory.load a) m = _
  simp only [Action.reading, Memory.load, hnone]

theorem loadBytes_eq (n : Nat) (hspace : m.memory.size < Address.space)
    (hfit : a.toNat + n ≤ m.memory.size) :
    Bus.loadBytes n a m = .ok (m.memory.extract a.toNat (a.toNat + n)) m := by
  induction n generalizing a with
  | zero =>
      have hnil : m.memory.extract a.toNat (a.toNat + 0) = [] := by
        apply List.length_eq_zero_iff.mp
        rw [Memory.length_extract (by omega)]
        omega
      rw [hnil]
      rfl
  | succ n ih =>
      have hin : a.toNat < m.memory.bytes.size := by
        rw [← Memory.size]
        omega
      have hnext : (a + 1).toNat = a.toNat + 1 :=
        Address.toNat_succ_of_lt (by omega)
      have hload := load_eq (Array.getElem?_eq_getElem hin)
      have hrest := ih (a := a + 1) (by omega)
      rw [Bus.loadBytes, Action.bind_ok hload, Action.bind_ok hrest]
      show EStateM.Result.ok _ m = _
      congr 1
      apply List.ext_getElem?
      intro k
      rcases Nat.lt_or_ge k (n + 1) with hk | hk
      · rw [Memory.extract_getElem? hfit (by omega)]
        cases k with
        | zero => exact (Array.getElem?_eq_getElem hin).symm
        | succ k =>
            rw [List.getElem?_cons_succ, hnext,
              Memory.extract_getElem? (by omega) (by omega)]
            congr 1
            omega
      · rw [List.getElem?_eq_none, List.getElem?_eq_none]
        · rw [Memory.length_extract hfit]
          omega
        · rw [List.length_cons, Memory.length_extract (by omega)]
          omega

theorem loadBytes_past (n : Nat) (hspace : m.memory.size < Address.space) (hn : n ≠ 0)
    (hpast : m.memory.size < a.toNat + n) :
    Bus.loadBytes n a m =
      .error (.loadByte (UInt32.ofNat (max a.toNat m.memory.size))) m := by
  induction n generalizing a with
  | zero => exact absurd rfl hn
  | succ n ih =>
      rcases Nat.lt_or_ge a.toNat m.memory.size with hin | hout
      · have hnext : (a + 1).toNat = a.toNat + 1 :=
          Address.toNat_succ_of_lt (by omega)
        have hmax : max (a.toNat + 1) m.memory.size = max a.toNat m.memory.size := by
          omega
        have hrest := ih (a := a + 1) (by omega) (by omega)
        rw [hnext, hmax] at hrest
        rw [Bus.loadBytes, Action.bind_ok (load_eq (Array.getElem?_eq_getElem hin)),
          Action.bind_error hrest]
      · rw [Bus.loadBytes, Action.bind_error (load_outside hout), Nat.max_eq_left hout,
          UInt32.ofNat_toNat]

/-- A guest reads the word that the host reads. -/
theorem loadWord_eq {w : UInt32} (hspace : m.memory.size < Address.space)
    (h : m.memory.loadWord a = .ok w) : Bus.loadWord a m = .ok w m := by
  rcases Nat.lt_or_ge m.memory.size (a.toNat + 4) with hlt | hfit
  · rw [Memory.loadWord_of_lt hlt] at h
    cases h
  · rw [Memory.loadWord_of_le hfit, Except.ok.injEq] at h
    have hbytes : Bus.loadBytes Word.size a m = _ := loadBytes_eq 4 hspace hfit
    rw [Bus.loadWord, Action.bind_ok hbytes, h]
    rfl

/-- A machine whose two registers can be read, whatever they say. -/
structure Shows (m : Machine) (stackStart memEnd : Address) : Prop where
  stackStart_eq : m.stackStart = .ok stackStart
  memEnd_eq : m.memEnd = .ok memEnd
  size_lt : m.memory.size < Address.space

theorem shows_of_size (hlo : 12 ≤ m.memory.size) (hhi : m.memory.size < Address.space) :
    ∃ stackStart memEnd, m.Shows stackStart memEnd :=
  ⟨_, _, Memory.loadWord_of_le hlo, Memory.loadWord_of_le (Nat.le_trans (by decide) hlo), hhi⟩

namespace Shows

variable {stackStart memEnd : Address}

theorem loadWord_stackStart (h : m.Shows stackStart memEnd) :
    Bus.loadWord Register.stackStart.address m = .ok stackStart m :=
  loadWord_eq h.size_lt h.stackStart_eq

theorem loadWord_memEnd (h : m.Shows stackStart memEnd) :
    Bus.loadWord Register.memEnd.address m = .ok memEnd m :=
  loadWord_eq h.size_lt h.memEnd_eq

/-- The registers show the same as long as their eight bytes are left alone. -/
theorem of_frame (h : m.Shows stackStart memEnd)
    (hsize : m'.memory.size = m.memory.size)
    (hframe : ∀ i : Nat, 4 ≤ i → i < 12 →
      m'.memory.bytes[i]? = m.memory.bytes[i]?) : m'.Shows stackStart memEnd := by
  refine ⟨?_, ?_, by rw [hsize]; exact h.size_lt⟩
  · refine Eq.trans (Memory.loadWord_congr hsize ?_) h.stackStart_eq
    intro i (hlo : 8 ≤ i) (hhi : i < 8 + 4)
    exact hframe i (by omega) (by omega)
  · refine Eq.trans (Memory.loadWord_congr hsize ?_) h.memEnd_eq
    intro i (hlo : 4 ≤ i) (hhi : i < 4 + 4)
    exact hframe i (by omega) (by omega)

end Shows

namespace Ready

variable {stackStart memEnd : Address}

theorem size_lt (h : m.Ready stackStart memEnd) : m.memory.size < Address.space := by
  have hsize := h.size_le
  have hspace : Address.space = 2 ^ 32 := rfl
  rw [h.size_eq]
  omega

theorem size_ge (h : m.Ready stackStart memEnd) : 256 ≤ m.memory.size := by
  have hio := h.io_le
  have hstack := h.stack_le
  rw [h.size_eq]
  omega

theorem shows (h : m.Ready stackStart memEnd) : m.Shows stackStart memEnd :=
  ⟨h.stackStart_eq, h.memEnd_eq, h.size_lt⟩

/-- A machine stays ready while it runs and its two registers are left alone. -/
theorem of_frame (h : m.Ready stackStart memEnd) (hrun : m'.status = .running)
    (hsize : m'.memory.size = m.memory.size)
    (hframe : ∀ i : Nat, 4 ≤ i → i < 12 →
      m'.memory.bytes[i]? = m.memory.bytes[i]?) : m'.Ready stackStart memEnd := by
  have hshows := h.shows.of_frame hsize hframe
  exact ⟨hrun, hshows.stackStart_eq, hshows.memEnd_eq, hsize.trans h.size_eq, h.io_le,
    h.stack_le, h.size_le⟩

theorem withBlock (h : m.Ready stackStart memEnd) {bs : List UInt8}
    (hlow : 12 ≤ a.toNat) : (m.withBlock a bs).Ready stackStart memEnd :=
  h.of_frame h.running (size_withBlock m a bs)
    fun _ _ hhi => Memory.overwrite_frame (.inl (by omega))

end Ready

end Machine

end FlatMachine
