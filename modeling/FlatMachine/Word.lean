/-!
# Little-endian words

A word is four bytes, least significant first. Both directions go through `Nat`,
digit by digit in base 256, so that a statement about words is a statement about
a sum of digits.
-/

namespace FlatMachine.Word

/-- The number of bytes in a word. -/
def size : Nat := 4

/-- The number with the given digits in base 256, least significant first. -/
def value : List UInt8 → Nat
  | [] => 0
  | b :: bs => b.toNat + 256 * value bs

/-- The lowest `k` digits of `n` in base 256, least significant first. -/
def digits : Nat → Nat → List UInt8
  | 0, _ => []
  | k + 1, n => UInt8.ofNat n :: digits k (n / 256)

/-- The word with the given bytes. -/
def ofBytes (bs : List UInt8) : UInt32 :=
  UInt32.ofNat (value bs)

/-- The bytes of a word. -/
def toBytes (w : UInt32) : List UInt8 :=
  digits size w.toNat

end FlatMachine.Word
