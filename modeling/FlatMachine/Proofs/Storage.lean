import FlatMachine.Memory
import FlatMachine.Proofs.Words

/-!
# What an overwritten memory holds

Two facts settle every question about a block of bytes written to memory: the
block reads back inside its window, and every other position is as it was. Both
are inductions along the bytes, and everything later in the project cites the
pair instead of opening `splice` again.

A memory is compared position by position, through `bytes[i]?`, so that the size
of memory never has to be carried along as a side condition.
-/

namespace FlatMachine.Memory

theorem size_splice (bytes : Array UInt8) (i : Nat) (bs : List UInt8) :
    (splice bytes i bs).size = bytes.size := by
  induction bs generalizing bytes i with
  | nil => rfl
  | cons b bs ih => rw [splice, ih, Array.size_setIfInBounds]

theorem splice_frame {bytes : Array UInt8} {i j : Nat} {bs : List UInt8}
    (h : j < i ∨ i + bs.length ≤ j) : (splice bytes i bs)[j]? = bytes[j]? := by
  induction bs generalizing bytes i with
  | nil => rfl
  | cons b bs ih =>
      rw [List.length_cons] at h
      rw [splice, ih (by omega), Array.getElem?_setIfInBounds_ne (by omega)]

theorem splice_window {bytes : Array UInt8} {i k : Nat} {bs : List UInt8}
    (hin : i + k < bytes.size) (hk : k < bs.length) :
    (splice bytes i bs)[i + k]? = bs[k]? := by
  induction bs generalizing bytes i k with
  | nil => exact absurd hk (Nat.not_lt_zero k)
  | cons b bs ih =>
      rw [List.length_cons] at hk
      rw [splice]
      cases k with
      | zero =>
          -- The rest of the bytes lands above this one.
          rw [splice_frame (by omega), Nat.add_zero,
            Array.getElem?_setIfInBounds_self_of_lt (by omega)]
          rfl
      | succ k =>
          rw [show i + (k + 1) = i + 1 + k by omega,
            ih (by rw [Array.size_setIfInBounds]; omega) (by omega)]
          rfl

theorem splice_outside {bytes : Array UInt8} {i : Nat} (h : bytes.size ≤ i)
    (bs : List UInt8) : splice bytes i bs = bytes := by
  induction bs generalizing i with
  | nil => rfl
  | cons b bs ih =>
      rw [splice, Array.setIfInBounds_eq_of_size_le h]
      exact ih (Nat.le_succ_of_le h)

theorem splice_append (bytes : Array UInt8) (i : Nat) (bs cs : List UInt8) :
    splice (splice bytes i bs) (i + bs.length) cs = splice bytes i (bs ++ cs) := by
  induction bs generalizing bytes i with
  | nil => rfl
  | cons b bs ih =>
      rw [List.length_cons, List.cons_append, splice, splice, ← ih]
      congr 1
      omega

@[simp] theorem size_overwrite (m : Memory) (a : Address) (bs : List UInt8) :
    (m.overwrite a bs).size = m.size :=
  size_splice _ _ _

@[simp] theorem size_zeros (n : Nat) : (zeros n).size = n :=
  Array.size_replicate

theorem zeros_getElem? {n i : Nat} (h : i < n) : (zeros n).bytes[i]? = some 0 := by
  rw [zeros, Array.getElem?_replicate, if_pos h]

theorem overwrite_frame {m : Memory} {a : Address} {bs : List UInt8} {j : Nat}
    (h : j < a.toNat ∨ a.toNat + bs.length ≤ j) :
    (m.overwrite a bs).bytes[j]? = m.bytes[j]? :=
  splice_frame h

/-- What lies past the end of memory is dropped, and the rest of the block reads back. -/
theorem overwrite_inside {m : Memory} {a : Address} {bs : List UInt8} {k : Nat}
    (hin : a.toNat + k < m.size) (hk : k < bs.length) :
    (m.overwrite a bs).bytes[a.toNat + k]? = bs[k]? :=
  splice_window hin hk

theorem overwrite_window {m : Memory} {a : Address} {bs : List UInt8} {k : Nat}
    (hfit : a.toNat + bs.length ≤ m.size) (hk : k < bs.length) :
    (m.overwrite a bs).bytes[a.toNat + k]? = bs[k]? :=
  overwrite_inside (by omega) hk

theorem overwrite_outside {m : Memory} {a : Address} (h : m.size ≤ a.toNat)
    (bs : List UInt8) : m.overwrite a bs = m :=
  congrArg Memory.mk (splice_outside h bs)

/-- Two blocks, the second right above the first, are one block. -/
theorem overwrite_append {m : Memory} {a a' : Address} {bs cs : List UInt8}
    (h : a'.toNat = a.toNat + bs.length) :
    (m.overwrite a bs).overwrite a' cs = m.overwrite a (bs ++ cs) := by
  rw [overwrite, overwrite, overwrite, h, splice_append]

theorem overwrite_byte_self {m : Memory} {a : Address} {b : UInt8}
    (h : a.toNat < m.size) : (m.overwrite a [b]).bytes[a.toNat]? = some b :=
  overwrite_window (k := 0) h Nat.one_pos

/-! ## Stores and writes, inside memory and past it -/

section Writes

variable {m : Memory} {a : Address} {bs : List UInt8}

theorem store_of_lt {b : UInt8} (h : a.toNat < m.size) :
    store a b m = .ok () (m.overwrite a [b]) :=
  if_pos h

theorem store_of_le {b : UInt8} (h : m.size ≤ a.toNat) :
    store a b m = .error (.storeByte a) m :=
  if_neg (Nat.not_lt_of_le h)

theorem write_of_le (h : a.toNat + bs.length ≤ m.size) :
    write a bs m = .ok () (m.overwrite a bs) :=
  if_pos h

theorem write_of_lt (h : m.size < a.toNat + bs.length) :
    write a bs m = .error (.write a.toNat (a.toNat + bs.length) m.size) m :=
  if_neg (Nat.not_le_of_lt h)

end Writes

/-! ## Reading blocks back -/

theorem extract_eq_take (m : Memory) (start stop : Nat) :
    m.extract start stop = (m.toList.drop start).take (stop - start) := by
  rw [extract, Array.toList_extract, List.extract_eq_take_drop, toList]

theorem length_extract {m : Memory} {start stop : Nat} (h : stop ≤ m.size) :
    (m.extract start stop).length = stop - start := by
  rw [extract, Array.length_toList, Array.size_extract, size] at *
  omega

theorem extract_getElem? {m : Memory} {start stop k : Nat} (h : stop ≤ m.size)
    (hk : k < stop - start) :
    (m.extract start stop)[k]? = m.bytes[start + k]? := by
  rw [size] at h
  rw [extract, Array.getElem?_toList, Array.getElem?_extract,
    if_pos (by omega)]

/-- A block of memory is known once each of its bytes is. -/
theorem extract_eq {m : Memory} {start : Nat} {bs : List UInt8}
    (hfit : start + bs.length ≤ m.size)
    (h : ∀ k, k < bs.length → m.bytes[start + k]? = bs[k]?) :
    m.extract start (start + bs.length) = bs := by
  apply List.ext_getElem?
  intro k
  rcases Nat.lt_or_ge k bs.length with hk | hk
  · rw [extract_getElem? hfit (by omega), h k hk]
  · rw [List.getElem?_eq_none hk, List.getElem?_eq_none]
    rw [length_extract hfit]
    omega

theorem extract_congr {m m' : Memory} {start stop : Nat} (hsize : m.size = m'.size)
    (hfit : stop ≤ m.size)
    (h : ∀ i, start ≤ i → i < stop → m.bytes[i]? = m'.bytes[i]?) :
    m.extract start stop = m'.extract start stop := by
  apply List.ext_getElem?
  intro k
  rcases Nat.lt_or_ge k (stop - start) with hk | hk
  · rw [extract_getElem? hfit hk, extract_getElem? (hsize ▸ hfit) hk]
    exact h (start + k) (by omega) (by omega)
  · rw [List.getElem?_eq_none, List.getElem?_eq_none]
    · rw [length_extract (hsize ▸ hfit)]
      exact hk
    · rw [length_extract hfit]
      exact hk

theorem loadWord_of_le {m : Memory} {a : Address} (h : a.toNat + 4 ≤ m.size) :
    m.loadWord a = .ok (Word.ofBytes (m.extract a.toNat (a.toNat + 4))) :=
  if_pos h

theorem loadWord_of_lt {m : Memory} {a : Address} (h : m.size < a.toNat + 4) :
    m.loadWord a = .error (.loadWord a) :=
  if_neg (Nat.not_le_of_lt h)

/-- A word is known once its four bytes are. -/
theorem loadWord_eq {m : Memory} {a : Address} {w : UInt32}
    (hfit : a.toNat + 4 ≤ m.size)
    (h : ∀ k, k < 4 → m.bytes[a.toNat + k]? = (Word.toBytes w)[k]?) :
    m.loadWord a = .ok w := by
  have hlen := Word.length_toBytes w
  have hbytes : m.extract a.toNat (a.toNat + 4) = Word.toBytes w := by
    rw [← hlen]
    exact extract_eq (by omega) (by rw [hlen]; exact h)
  rw [loadWord_of_le hfit, hbytes, Word.ofBytes_toBytes]

/-- A word depends on its own four bytes only. -/
theorem loadWord_congr {m m' : Memory} {a : Address} (hsize : m.size = m'.size)
    (h : ∀ i, a.toNat ≤ i → i < a.toNat + 4 → m.bytes[i]? = m'.bytes[i]?) :
    m.loadWord a = m'.loadWord a := by
  rcases Nat.lt_or_ge m.size (a.toNat + 4) with hlt | hfit
  · rw [loadWord_of_lt hlt, loadWord_of_lt (hsize ▸ hlt)]
  · rw [loadWord_of_le hfit, loadWord_of_le (hsize ▸ hfit),
      extract_congr hsize hfit h]

theorem load_eq {m : Memory} {a : Address} {b : UInt8}
    (h : m.bytes[a.toNat]? = some b) : m.load a = .ok b := by
  rw [load, h]

end FlatMachine.Memory
