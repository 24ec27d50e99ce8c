import FlatMachine.Address
import FlatMachine.Word
import Mathlib.Algebra.Group.Nat.Defs

/-!
# Words and addresses as numbers

Every claim about the heap or about a register is in the end a claim about
natural numbers. This file is where words are left behind: what the saturating
sum, the distance and the four bytes of a word come to in `Nat`, with no
modulus left over.
-/

namespace FlatMachine

namespace Address

theorem toNat_lt_space (a : Address) : a.toNat < space :=
  a.toNat_lt

theorem toNat_last : last.toNat = space - 1 := rfl

theorem le_last (a : Address) : a.toNat ≤ last.toNat := by
  have := a.toNat_lt_space
  rw [toNat_last]
  omega

/-- The sum never passes the last address and loses nothing below it. -/
theorem toNat_saturatingAdd (a : Address) (n : UInt32) :
    (a.saturatingAdd n).toNat = min (space - 1) (a.toNat + n.toNat) := by
  unfold saturatingAdd add?
  split
  · next hlt =>
      have hsum : (a + n).toNat = a.toNat + n.toNat := by
        rw [UInt32.toNat_add]
        exact Nat.mod_eq_of_lt hlt
      rw [Option.getD_some, hsum]
      omega
  · next hge =>
      rw [Option.getD_none, toNat_last]
      omega

theorem le_saturatingAdd (a : Address) (n : UInt32) :
    a.toNat ≤ (a.saturatingAdd n).toNat := by
  have := a.toNat_lt_space
  rw [toNat_saturatingAdd]
  omega

theorem toNat_distanceFrom (a b : Address) :
    (a.distanceFrom b).toNat = a.toNat - b.toNat := by
  unfold distanceFrom
  split
  · next hle => exact UInt32.toNat_sub_of_le a b hle
  · next hlt =>
      rw [UInt32.le_iff_toNat_le] at hlt
      rw [UInt32.toNat_zero]
      omega

theorem toNat_add_of_lt {a : Address} {n : UInt32}
    (h : a.toNat + n.toNat < space) : (a + n).toNat = a.toNat + n.toNat := by
  rw [UInt32.toNat_add]
  exact Nat.mod_eq_of_lt h

theorem toNat_succ_of_lt {a : Address} (h : a.toNat + 1 < space) :
    (a + 1).toNat = a.toNat + 1 :=
  toNat_add_of_lt h

theorem toNat_ofNat_of_lt {n : Nat} (h : n < space) :
    (UInt32.ofNat n).toNat = n := by
  rw [UInt32.toNat_ofNat']
  exact Nat.mod_eq_of_lt h

theorem ofNat_toNat_eq {a : Address} {n : Nat} (h : a.toNat = n) :
    a = UInt32.ofNat n := by
  rw [← h, UInt32.ofNat_toNat]

theorem add_ofNat_zero (a : Address) : a + UInt32.ofNat 0 = a :=
  UInt32.add_zero a

theorem add_ofNat_succ (a : Address) (k : Nat) :
    a + UInt32.ofNat (k + 1) = a + UInt32.ofNat k + 1 := by
  rw [UInt32.ofNat_add, ← UInt32.add_assoc]
  rfl

theorem succ_add_ofNat (a : Address) (k : Nat) :
    a + 1 + UInt32.ofNat k = a + UInt32.ofNat (k + 1) := by
  rw [add_ofNat_succ, UInt32.add_assoc, UInt32.add_comm 1, ← UInt32.add_assoc]

theorem ofNat_saturatingAdd {c : Nat} (h : c < space) (n : UInt32) :
    saturatingAdd (UInt32.ofNat c) n = UInt32.ofNat (min (space - 1) (c + n.toNat)) := by
  apply ofNat_toNat_eq
  rw [toNat_saturatingAdd, toNat_ofNat_of_lt h]

end Address

/-- Pieces of one width, cut out one after the other, are what they were cut from. -/
theorem flatMap_pieces {α : Type} (xs : List α) (width n : Nat) :
    (List.range n).flatMap (fun i => (xs.drop (width * i)).take width) =
      xs.take (width * n) := by
  induction n with
  | zero => simp
  | succ n ih => simp [List.range_succ, ih, Nat.mul_succ, List.take_add]

namespace Word

@[simp] theorem length_digits (k n : Nat) : (digits k n).length = k := by
  induction k generalizing n with
  | zero => rfl
  | succ k ih => rw [digits, List.length_cons, ih]

@[simp] theorem length_toBytes (w : UInt32) : (toBytes w).length = 4 :=
  length_digits _ _

theorem value_digits (k n : Nat) : value (digits k n) = n % 256 ^ k := by
  induction k generalizing n with
  | zero => rw [digits, value, Nat.pow_zero, Nat.mod_one]
  | succ k ih =>
      have hlow : (UInt8.ofNat n).toNat = n % 256 := UInt8.toNat_ofNat'
      rw [digits, value, ih, hlow, Nat.pow_succ', Nat.mod_mul]

theorem value_lt (bs : List UInt8) : value bs < 256 ^ bs.length := by
  induction bs with
  | nil => exact Nat.one_pos
  | cons b bs ih =>
      have hb : b.toNat < 256 := b.toNat_lt
      rw [value, List.length_cons, Nat.pow_succ]
      omega

theorem digits_value (bs : List UInt8) : digits bs.length (value bs) = bs := by
  induction bs with
  | nil => rfl
  | cons b bs ih =>
      have hb : b.toNat < 256 := b.toNat_lt
      have hdiv : (b.toNat + 256 * value bs) / 256 = value bs := by omega
      have hlow : UInt8.ofNat (b.toNat + 256 * value bs) = b := by
        rw [← UInt8.toNat_inj, UInt8.toNat_ofNat']
        omega
      rw [List.length_cons, value, digits, hdiv, hlow, ih]

/-- Four bytes are a word without loss. -/
theorem toNat_ofBytes {bs : List UInt8} (h : bs.length = 4) :
    (ofBytes bs).toNat = value bs := by
  have hlt := value_lt bs
  rw [h] at hlt
  exact Address.toNat_ofNat_of_lt hlt

@[simp] theorem ofBytes_toBytes (w : UInt32) : ofBytes (toBytes w) = w := by
  rw [← UInt32.toNat_inj, toNat_ofBytes (length_toBytes w), toBytes,
    value_digits]
  exact Nat.mod_eq_of_lt w.toNat_lt

theorem toBytes_ofBytes {bs : List UInt8} (h : bs.length = 4) :
    toBytes (ofBytes bs) = bs := by
  rw [toBytes, toNat_ofBytes h, size, ← h]
  exact digits_value bs

theorem digits_getElem? (k n i : Nat) (h : i < k) :
    (digits k n)[i]? = some (UInt8.ofNat (n / 256 ^ i)) := by
  induction k generalizing n i with
  | zero => exact absurd h (Nat.not_lt_zero i)
  | succ k ih =>
      cases i with
      | zero => rw [digits, List.getElem?_cons_zero, Nat.pow_zero, Nat.div_one]
      | succ i =>
          rw [digits, List.getElem?_cons_succ, ih (n / 256) i (by omega),
            Nat.div_div_eq_div_mul, ← Nat.pow_succ']

/-- The bytes of a word are its digits in base 256, least significant first. -/
theorem toBytes_getElem? {w : UInt32} {i : Nat} (h : i < 4) :
    (toBytes w)[i]? = some (UInt8.ofNat (w.toNat / 256 ^ i)) :=
  digits_getElem? 4 w.toNat i h

/-- The bytes of a word, by shifting. -/
theorem toBytes_eq (w : UInt32) :
    toBytes w = [w.toUInt8, (w >>> 8).toUInt8, (w >>> 16).toUInt8,
      (w >>> 24).toUInt8] := by
  have hshift : ∀ k : UInt32, k < 32 →
      (w >>> k).toUInt8 = UInt8.ofNat (w.toNat / 2 ^ k.toNat) := by
    intro k hk
    have hmod : k.toNat % 32 = k.toNat := by
      rw [UInt32.lt_iff_toNat_lt] at hk
      exact Nat.mod_eq_of_lt hk
    apply UInt8.toNat_inj.mp
    rw [UInt32.toNat_toUInt8, UInt32.toNat_shiftRight, hmod,
      Nat.shiftRight_eq_div_pow, UInt8.toNat_ofNat']
  have hlow : w.toUInt8 = UInt8.ofNat w.toNat := by
    apply UInt8.toNat_inj.mp
    rw [UInt32.toNat_toUInt8, UInt8.toNat_ofNat']
  rw [hshift 8 (by decide), hshift 16 (by decide), hshift 24 (by decide), hlow]
  simp only [toBytes, size, digits, Nat.div_div_eq_div_mul]
  rfl

end Word

end FlatMachine
