/-!
# Hexadecimal text

Bytes are two lowercase digits each. Numbers are padded to eight digits and never
cut, so a number past the address space keeps its ninth digit.
-/

namespace FlatMachine.Text

/-- The two digits of a byte. -/
def hexByte (b : UInt8) : List Char :=
  [Nat.digitChar (b.toNat / 16), Nat.digitChar (b.toNat % 16)]

/-- The digits of a byte string. -/
def hex (bs : List UInt8) : String :=
  String.ofList (bs.flatMap hexByte)

/-- A number in at least eight digits. -/
def hex8 (n : Nat) : String :=
  String.ofList (List.leftpad 8 '0' (Nat.toDigits 16 n))

/-- A number in at least eight digits, marked as hexadecimal. -/
def hexNumber (n : Nat) : String :=
  "0x" ++ hex8 n

end FlatMachine.Text
