/-!
# Text as bytes

Encoding is the usual UTF-8. Decoding accepts every byte string: the decoder is
fed one byte at a time, and a sequence that breaks off or cannot go on becomes
one replacement character. The byte that broke a sequence starts afresh, so
nothing valid is ever swallowed.
-/

namespace FlatMachine.Text

/-- The bytes of a text. -/
def encode (s : String) : List UInt8 :=
  s.toList.flatMap String.utf8EncodeChar

/-- Stands for bytes that are no text. -/
def replacement : Char := '�'

/-- An inclusive range of bytes. -/
structure ByteRange where
  low : UInt8
  high : UInt8
deriving DecidableEq, Repr

/-- Whether a byte lies in a range. -/
def ByteRange.contains (r : ByteRange) (b : UInt8) : Bool :=
  r.low ≤ b && b ≤ r.high

/-- A character whose bytes are still arriving: its bits so far, and what each of
the bytes to come may be. -/
structure Pending where
  bits : Nat
  next : ByteRange
  later : List ByteRange
deriving Repr

/-- What a decoder has read: the finished text, and a character under way. -/
structure Decoder where
  text : String := ""
  pending : Option Pending := none

/-- Any continuation byte. -/
def continuation : ByteRange := ⟨0x80, 0xBF⟩

/-- The character a lead byte begins, if it is one that needs more bytes.
The second byte is narrowed where it would allow an overlong form, a surrogate,
or a number past the last character. -/
def Pending.start? (b : UInt8) : Option Pending :=
  let n := b.toNat
  if 0xC2 ≤ n ∧ n ≤ 0xDF then some ⟨n % 32, continuation, []⟩
  else if n = 0xE0 then some ⟨n % 16, ⟨0xA0, 0xBF⟩, [continuation]⟩
  else if n = 0xED then some ⟨n % 16, ⟨0x80, 0x9F⟩, [continuation]⟩
  else if 0xE1 ≤ n ∧ n ≤ 0xEF then some ⟨n % 16, continuation, [continuation]⟩
  else if n = 0xF0 then some ⟨n % 8, ⟨0x90, 0xBF⟩, [continuation, continuation]⟩
  else if 0xF1 ≤ n ∧ n ≤ 0xF3 then some ⟨n % 8, continuation, [continuation, continuation]⟩
  else if n = 0xF4 then some ⟨n % 8, ⟨0x80, 0x8F⟩, [continuation, continuation]⟩
  else none

namespace Decoder

/-- Reads a byte where a character begins. -/
def begin (text : String) (b : UInt8) : Decoder :=
  if b < 0x80 then ⟨text.push (Char.ofNat b.toNat), none⟩
  else
    match Pending.start? b with
    | some p => ⟨text, some p⟩
    | none => ⟨text.push replacement, none⟩

/-- Reads one more byte. -/
def feed (d : Decoder) (b : UInt8) : Decoder :=
  match d.pending with
  | none => begin d.text b
  | some p =>
    if p.next.contains b then
      let bits := p.bits * 64 + b.toNat % 64
      match p.later with
      | [] => ⟨d.text.push (Char.ofNat bits), none⟩
      | r :: rs => ⟨d.text, some ⟨bits, r, rs⟩⟩
    else begin (d.text.push replacement) b

/-- The text, with a replacement for a character that never arrived. -/
def finish (d : Decoder) : String :=
  match d.pending with
  | none => d.text
  | some _ => d.text.push replacement

end Decoder

/-- The text of any byte string. -/
def decode (bs : List UInt8) : String :=
  (bs.foldl Decoder.feed {}).finish

end FlatMachine.Text
