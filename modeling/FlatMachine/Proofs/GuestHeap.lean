import FlatMachine.Proofs.Printing

/-!
# A guest that keeps its machine ready

On a machine whose registers stay as they are, the heap is a single number, the
position where the next block would start. `Guest.Sits` says that a guest is at
such a position, and each call then has one equation for the case that it is
served and one for the case that it is not. Nothing saturates on the way except a
block that runs past the last address.

A string is checked for room before it asks for a block, so the request it then
makes is never denied, and a string that is denied has not touched the heap.
-/

namespace FlatMachine

/-- Where the next block of a heap starts, if an unused heap starts at `start`. -/
def Heap.positionFrom (h : Heap) (start : Address) : Address :=
  if h.isInitialized then h.cursor else start

namespace Guest

theorem loadWord_run {g : Guest Machine} {a : Address} {w : UInt32}
    (hl : Bus.loadWord a g.bus = .ok w g.bus) : Bus.loadWord a g = .ok w g := by
  rw [← onBus_lifting.loadWord a]
  exact onBus_ok hl g.heap

section Registers

variable {g : Guest Machine} {stackStart memEnd : Address}

theorem position_shown (hm : g.bus.Shows stackStart memEnd) :
    position g = .ok (g.heap.positionFrom (stackStart.saturatingAdd 4)) g := by
  have hget : getHeap g = .ok g.heap g := rfl
  rw [position, Action.bind_ok hget, Heap.positionFrom]
  split
  · rfl
  · exact Action.bind_ok (loadWord_run hm.loadWord_stackStart)

theorem remaining_shown (hm : g.bus.Shows stackStart memEnd) :
    remaining g = .ok (memEnd.distanceFrom
      (g.heap.positionFrom (stackStart.saturatingAdd 4))) g := by
  rw [remaining, Action.bind_ok (position_shown hm),
    Action.bind_ok (loadWord_run hm.loadWord_memEnd)]
  rfl

theorem reserve_shown (hm : g.bus.Shows stackStart memEnd) (size : UInt32) :
    reserve size g = grant memEnd size
      ⟨g.bus, ⟨g.heap.positionFrom (stackStart.saturatingAdd 4)⟩⟩ := by
  have hset (h : Heap) : setHeap h g = .ok () ⟨g.bus, h⟩ := rfl
  have hload (h : Heap) : Bus.loadWord Register.memEnd.address
      (⟨g.bus, h⟩ : Guest Machine) = .ok memEnd ⟨g.bus, h⟩ :=
    loadWord_run hm.loadWord_memEnd
  rw [reserve, Action.bind_ok (position_shown hm), Action.bind_ok (hset _),
    Action.bind_ok (hload _)]

theorem reserve_granted (hm : g.bus.Shows stackStart memEnd) (size : UInt32)
    (hlt : g.heap.positionFrom (stackStart.saturatingAdd 4) < memEnd) :
    reserve size g = .ok (some (g.heap.positionFrom (stackStart.saturatingAdd 4)))
      ⟨g.bus, ⟨(g.heap.positionFrom (stackStart.saturatingAdd 4)).saturatingAdd size⟩⟩ := by
  rw [reserve_shown hm]
  simp only [grant, Heap.grant, if_pos hlt]

theorem reserve_refused (hm : g.bus.Shows stackStart memEnd) (size : UInt32)
    (hge : ¬ g.heap.positionFrom (stackStart.saturatingAdd 4) < memEnd) :
    reserve size g = .ok none
      ⟨g.bus, ⟨g.heap.positionFrom (stackStart.saturatingAdd 4)⟩⟩ := by
  rw [reserve_shown hm]
  simp only [grant, Heap.grant, if_neg hge]

end Registers

theorem toNat_stringSize (s : List UInt8) :
    (stringSize s).toNat = min (Address.space - 1) (s.length + 1) := by
  have hone : (1 : UInt32).toNat = 1 := rfl
  have hspace : Address.space = 2 ^ 32 := rfl
  rw [stringSize, Address.toNat_saturatingAdd,
    Address.toNat_ofNat_of_lt (by omega), hone]
  omega

/-- A guest on a ready machine, whose next block would start at position `c`. -/
structure Sits (g : Guest Machine) (stackStart memEnd : Address) (c : Nat) :
    Prop where
  ready : g.bus.Ready stackStart memEnd
  position_eq : g.heap.positionFrom (stackStart.saturatingAdd 4) = UInt32.ofNat c
  start_le : stackStart.toNat + 4 ≤ c
  lt_space : c < Address.space

namespace Sits

variable {m : Machine} {g : Guest Machine} {stackStart memEnd : Address} {c : Nat}

theorem fresh (hm : m.Ready stackStart memEnd) :
    Sits ⟨m, {}⟩ stackStart memEnd (stackStart.toNat + 4) := by
  have hstack := hm.stack_le
  have hsize := hm.size_le
  have hspace : Address.space = 2 ^ 32 := rfl
  refine ⟨hm, Address.ofNat_toNat_eq ?_, Nat.le_refl _, by omega⟩
  show (stackStart.saturatingAdd 4).toNat = _
  have hfour : (4 : UInt32).toNat = 4 := rfl
  rw [Address.toNat_saturatingAdd, hfour]
  omega

/-- The guest once its cursor has moved on to a position further up. -/
theorem move (hg : g.Sits stackStart memEnd c) {c' : Nat} (hle : c ≤ c')
    (hlt : c' < Address.space) (hm : m.Ready stackStart memEnd) :
    Sits ⟨m, ⟨UInt32.ofNat c'⟩⟩ stackStart memEnd c' := by
  have hstart := hg.start_le
  have hused : (⟨UInt32.ofNat c'⟩ : Heap).isInitialized = true := by
    refine bne_iff_ne.mpr fun hnull => ?_
    have hnat := congrArg UInt32.toNat hnull
    rw [Address.toNat_ofNat_of_lt hlt] at hnat
    have hzero : Address.null.toNat = 0 := rfl
    omega
  refine ⟨hm, ?_, by omega, hlt⟩
  rw [Heap.positionFrom, hused]
  rfl

theorem toNat_ofNat (hg : g.Sits stackStart memEnd c) : (UInt32.ofNat c).toNat = c :=
  Address.toNat_ofNat_of_lt hg.lt_space

theorem remaining_run (hg : g.Sits stackStart memEnd c) :
    remaining g = .ok (memEnd.distanceFrom (UInt32.ofNat c)) g := by
  rw [remaining_shown hg.ready.shows, hg.position_eq]

theorem below_iff (hg : g.Sits stackStart memEnd c) :
    g.heap.positionFrom (stackStart.saturatingAdd 4) < memEnd ↔ c < memEnd.toNat := by
  rw [hg.position_eq, UInt32.lt_iff_toNat_lt, hg.toNat_ofNat]

/-! ## Blocks -/

theorem reserve_run (hg : g.Sits stackStart memEnd c) (size : UInt32) :
    reserve size g = if c < memEnd.toNat then
        .ok (some (UInt32.ofNat c))
          ⟨g.bus, ⟨UInt32.ofNat (min (Address.space - 1) (c + size.toNat))⟩⟩
      else .ok none ⟨g.bus, ⟨UInt32.ofNat c⟩⟩ := by
  split
  · next hlt =>
      rw [reserve_granted hg.ready.shows size (hg.below_iff.mpr hlt), hg.position_eq,
        Address.ofNat_saturatingAdd hg.lt_space]
  · next hge =>
      rw [reserve_refused hg.ready.shows size fun hlt => hge (hg.below_iff.mp hlt),
        hg.position_eq]

theorem allocate_granted (hg : g.Sits stackStart memEnd c) (size : UInt32)
    (hlt : c < memEnd.toNat) :
    allocate size g = .ok (.ok (UInt32.ofNat c))
      ⟨g.bus, ⟨UInt32.ofNat (min (Address.space - 1) (c + size.toNat))⟩⟩ := by
  have hgrant := hg.reserve_run size
  rw [if_pos hlt] at hgrant
  exact allocate_of_granted hgrant

theorem bus_exhausted (hg : g.Sits stackStart memEnd c) :
    haltOutOfMemory g.bus = .ok {} g.bus.exhausted := by
  have hsize := hg.ready.size_ge
  exact Machine.haltOutOfMemory_run hg.ready.running (by omega)

theorem allocate_refused (hg : g.Sits stackStart memEnd c) (size : UInt32)
    (hge : memEnd.toNat ≤ c) :
    allocate size g = .ok (.error {}) ⟨g.bus.exhausted, ⟨UInt32.ofNat c⟩⟩ := by
  have hnone := hg.reserve_run size
  rw [if_neg (Nat.not_lt_of_le hge)] at hnone
  exact allocate_of_refused hnone hg.bus_exhausted

/-! ## Strings -/

/-- The test for room loses nothing to saturation: a string too long for a word is
also too long for any memory. -/
theorem remaining_lt_iff (hg : g.Sits stackStart memEnd c) (s : List UInt8) :
    memEnd.distanceFrom (UInt32.ofNat c) < stringSize s ↔
      memEnd.toNat < c + s.length + 1 := by
  have hsize := hg.ready.size_le
  have hspace : Address.space = 2 ^ 32 := rfl
  rw [UInt32.lt_iff_toNat_lt, Address.toNat_distanceFrom, toNat_stringSize,
    hg.toNat_ofNat]
  omega

theorem storeString_full (hg : g.Sits stackStart memEnd c) (s : List UInt8)
    (hfull : memEnd.toNat < c + s.length + 1) :
    storeString s g = .ok (.error {}) ⟨g.bus.exhausted, g.heap⟩ := by
  rw [storeString, Action.bind_ok hg.remaining_run,
    if_pos ((hg.remaining_lt_iff s).mpr hfull)]
  exact Action.map_ok (haltOutOfMemory_ok hg.bus_exhausted g.heap)

theorem storeBytes_run (hg : g.Sits stackStart memEnd c) (s : List UInt8)
    (hfit : c + s.length + 1 ≤ memEnd.toNat) (h : Heap) :
    Bus.storeBytes (UInt32.ofNat c) s (⟨g.bus, h⟩ : Guest Machine) =
      .ok () ⟨g.bus.withBlock (UInt32.ofNat c) s, h⟩ := by
  have hstart := hg.start_le
  have hio := hg.ready.io_le
  have hsize := hg.ready.size_eq
  have hnat := hg.toNat_ofNat
  rw [← onBus_lifting.storeBytes]
  exact onBus_ok (Machine.storeBytes_run s hg.ready.running hg.ready.size_lt
    (by omega) (by omega)) h

/-- The closing zero lands right behind the string, so the two are one block. -/
theorem storeZero_run (hg : g.Sits stackStart memEnd c) (s : List UInt8)
    (hfit : c + s.length + 1 ≤ memEnd.toNat) (h : Heap) :
    Bus.store (UInt32.ofNat c + UInt32.ofNat s.length) 0
        (⟨g.bus.withBlock (UInt32.ofNat c) s, h⟩ : Guest Machine) =
      .ok () ⟨g.bus.withBlock (UInt32.ofNat c) (s ++ [0]), h⟩ := by
  have hstart := hg.start_le
  have hio := hg.ready.io_le
  have hsize := hg.ready.size_eq
  have hspace := hg.ready.size_lt
  have hlen : (UInt32.ofNat s.length).toNat = s.length :=
    Address.toNat_ofNat_of_lt (by omega)
  have hlast : (UInt32.ofNat c + UInt32.ofNat s.length).toNat =
      (UInt32.ofNat c).toNat + s.length := by
    rw [Address.toNat_add_of_lt, hlen]
    rw [hg.toNat_ofNat, hlen]
    omega
  have hnat := hg.toNat_ofNat
  have hzero := Machine.store_running (m := g.bus.withBlock (UInt32.ofNat c) s)
    (a := UInt32.ofNat c + UInt32.ofNat s.length) (b := 0) hg.ready.running
    (by rw [Machine.size_withBlock]; omega)
  rw [Machine.stored_inert (Address.inert_of_lt (by omega)),
    Machine.withBlock_append hlast] at hzero
  exact onBus_ok hzero h

theorem storeString_fits (hg : g.Sits stackStart memEnd c) (s : List UInt8)
    (hfit : c + s.length + 1 ≤ memEnd.toNat) :
    storeString s g = .ok (.ok (UInt32.ofNat c))
      ⟨g.bus.withBlock (UInt32.ofNat c) (s ++ [0]),
        ⟨UInt32.ofNat (c + s.length + 1)⟩⟩ := by
  have hlimit := hg.ready.size_le
  have hspace : Address.space = 2 ^ 32 := rfl
  have hroom : ¬ memEnd.distanceFrom (UInt32.ofNat c) < stringSize s := by
    rw [hg.remaining_lt_iff]
    omega
  have hcursor : min (Address.space - 1) (c + (stringSize s).toNat) =
      c + s.length + 1 := by
    rw [toNat_stringSize]
    omega
  have hgrant := hg.allocate_granted (stringSize s) (by omega)
  rw [hcursor] at hgrant
  rw [storeString, Action.bind_ok hg.remaining_run, if_neg hroom,
    Action.bind_ok hgrant]
  refine (Action.bind_ok (hg.storeBytes_run s hfit _)).trans ?_
  exact Action.bind_ok (hg.storeZero_run s hfit _)

theorem stringFrom_stored (hg : g.Sits stackStart memEnd c) {t : List UInt8}
    (hfit : c + t.length + 1 ≤ memEnd.toNat) :
    (g.bus.withBlock (UInt32.ofNat c) (t ++ [0])).memory.stringFrom c =
      t.takeWhile (· ≠ 0) := by
  have hlen : (t ++ [0]).length = t.length + 1 := List.length_append
  have hblock : ∀ k, k < t.length + 1 → (g.bus.withBlock (UInt32.ofNat c)
      (t ++ [0])).memory.bytes[c + k]? = (t ++ [0])[k]? := by
    intro k hk
    exact Machine.withBlock_window hg.lt_space
      (by rw [hlen, hg.ready.size_eq]; exact hfit) (by rw [hlen]; exact hk)
  refine Memory.stringFrom_eq (fun k hk => ?_) ?_
  · rw [hblock k (by omega), List.getElem?_append_left hk]
  · rw [hblock t.length (Nat.lt_succ_self _), List.getElem?_concat_length]

/-- The guest prints the string that it has just stored. -/
theorem printLineAt_stored (hg : g.Sits stackStart memEnd c) {t : List UInt8}
    (hfit : c + t.length + 1 ≤ memEnd.toNat) (h : Heap) :
    printLineAt (UInt32.ofNat c)
        (⟨g.bus.withBlock (UInt32.ofNat c) (t ++ [0]), h⟩ : Guest Machine) =
      .ok () ⟨(g.bus.withBlock (UInt32.ofNat c) (t ++ [0])).emit
        (t.takeWhile (· ≠ 0) ++ [newline]), h⟩ := by
  have hcut : (t.takeWhile (· ≠ 0)).length ≤ t.length :=
    (List.takeWhile_sublist _).length_le
  have hstring : (g.bus.withBlock (UInt32.ofNat c)
      (t ++ [0])).memory.stringFrom (UInt32.ofNat c).toNat = t.takeWhile (· ≠ 0) := by
    rw [hg.toNat_ofNat]
    exact hg.stringFrom_stored hfit
  have hline := Machine.printLineAt_run (a := UInt32.ofNat c)
    (m := g.bus.withBlock (UInt32.ofNat c) (t ++ [0])) hg.ready.running
    (by rw [Machine.size_withBlock]; exact hg.ready.size_lt)
    (by rw [hstring, Machine.size_withBlock, hg.ready.size_eq, hg.toNat_ofNat]; omega)
  rw [hstring] at hline
  rw [← onBus_lifting.printLineAt]
  exact onBus_ok hline h

end Sits

end Guest

end FlatMachine
