/-!
# Reading numbers

A number is decimal, or hexadecimal after `0x` or `0X`, with at most one plus
sign in front of its digits, and it has to fit in a word. Digits are read from
the left and the first trouble decides. A character that is no digit is reported
before the overflow it would have caused.
-/

namespace FlatMachine.Text

/-- Why a text is not a number. -/
inductive NumberError where
  | empty
  | invalidDigit
  | tooLarge
deriving DecidableEq, Repr

/-- What the user reads. -/
def NumberError.message : NumberError → String
  | .empty => "cannot parse integer from empty string"
  | .invalidDigit => "invalid digit found in string"
  | .tooLarge => "number too large to fit in target type"

/-- The value of an ASCII letter or digit, when it is below the radix. -/
def digit? (radix : Nat) (c : Char) : Option Nat :=
  let d? :=
    if '0' ≤ c ∧ c ≤ '9' then some (c.toNat - '0'.toNat)
    else if 'a' ≤ c ∧ c ≤ 'z' then some (c.toNat - 'a'.toNat + 10)
    else if 'A' ≤ c ∧ c ≤ 'Z' then some (c.toNat - 'A'.toNat + 10)
    else none
  d?.filter (· < radix)

/-- Continues the number `n` with further digits. -/
def readDigits (radix : Nat) (n : Nat) : List Char → Except NumberError UInt32
  | [] => .ok (UInt32.ofNat n)
  | c :: cs =>
    match digit? radix c with
    | none => .error .invalidDigit
    | some d =>
      let next := n * radix + d
      if next < 0x100000000 then readDigits radix next cs else .error .tooLarge

/-- Reads an optional plus sign and at least one digit. -/
def readUnsigned (radix : Nat) : List Char → Except NumberError UInt32
  | [] => .error .empty
  | '+' :: c :: cs => readDigits radix 0 (c :: cs)
  | cs => readDigits radix 0 cs

/-- Reads a number in either notation. -/
def readNumber (s : String) : Except NumberError UInt32 :=
  match s.toList with
  | '0' :: 'x' :: cs => readUnsigned 16 cs
  | '0' :: 'X' :: cs => readUnsigned 16 cs
  | cs => readUnsigned 10 cs

/-- The complaint about a text that is not a number. -/
def NumberError.describe (e : NumberError) (s : String) : String :=
  "invalid number '" ++ s ++ "': " ++ e.message

end FlatMachine.Text
