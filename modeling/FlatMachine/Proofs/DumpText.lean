import FlatMachine.Machine.Dump
import FlatMachine.Proofs.MachineEffects
import FlatMachine.Proofs.Numerals

/-!
# Nothing is lost in a dump

A dump is meant for people, but it can be read back: the lines are where the line ends
are, each column starts at a fixed place, and the digits in it spell the bytes. So two
machines that are dumped alike hold the same bytes in the range and the same two
registers.

The one thing that varies is the last line, which may be short. Padding keeps the
columns in place there, and no digit and no character that is shown can be mistaken
for a blank or for a line end. That the lines together show the whole range, with
nothing twice, is `flatMap_pieces` again, for pieces of sixteen bytes.
-/

namespace FlatMachine

namespace Text

variable {radix n : Nat} {cs : List Char}

/-! ## Hexadecimal text read back -/

theorem digitChar_lower {d : Nat} (h : d < 16) :
    "0123456789abcdef".toList[d]? = some (Nat.digitChar d) := by
  have hall : ∀ d < 16, "0123456789abcdef".toList[d]? = some (Nat.digitChar d) := by decide
  exact hall d h

theorem digitChar_isDigit {d : Nat} (h : d < 16) : IsDigit 16 (Nat.digitChar d) d :=
  ⟨h, .inl (digitChar_lower h)⟩

theorem spells_toDigits (n : Nat) : Spells 16 (Nat.toDigits 16 n) n := by
  induction n using Nat.strongRecOn with
  | ind n ih =>
      rw [Nat.toDigits_eq_if (by decide)]
      split
      · next hlt => simpa using Spells.nil.concat (digitChar_isDigit hlt)
      · next hge =>
          have hdigit := digitChar_isDigit (Nat.mod_lt n (show 0 < 16 by decide))
          have hspells := (ih (n / 16) (by omega)).concat hdigit
          rwa [Nat.div_add_mod'] at hspells

theorem lower_of_mem_toDigits {c : Char} (h : c ∈ Nat.toDigits 16 n) :
    c ∈ "0123456789abcdef".toList := by
  induction n using Nat.strongRecOn with
  | ind n ih =>
      rw [Nat.toDigits_eq_if (by decide)] at h
      split at h
      · next hlt =>
          rw [List.mem_singleton.mp h]
          exact List.mem_of_getElem? (digitChar_lower hlt)
      · next hge =>
          rcases List.mem_append.mp h with hfront | hlast
          · exact ih (n / 16) (by omega) hfront
          · rw [List.mem_singleton.mp hlast]
            exact List.mem_of_getElem? (digitChar_lower (Nat.mod_lt n (by decide)))

theorem Spells.zeros (hradix : 0 < radix) (h : Spells radix cs n) (k : Nat) :
    Spells radix (List.replicate k '0' ++ cs) n := by
  induction k with
  | zero => simpa using h
  | succ k ih =>
      obtain ⟨ds, hds, hn⟩ := ih
      refine ⟨0 :: ds, .cons ⟨hradix, .inl rfl⟩ hds, ?_⟩
      rw [List.reverse_cons, Nat.ofDigits_append_zero, hn]

/-- A number written in eight digits that spell it, none of them a capital. -/
structure EightDigits (n : Nat) (cs : List Char) : Prop where
  length_eq : cs.length = 8
  lower : ∀ c ∈ cs, c ∈ "0123456789abcdef".toList
  spells : Spells 16 cs n

theorem hex8_eightDigits (h : n < 2 ^ 32) : EightDigits n (hex8 n).toList := by
  have hle : (Nat.toDigits 16 n).length ≤ 8 :=
    (Nat.length_toDigits_le_iff (by decide) (by decide)).mpr h
  have htext : (hex8 n).toList =
      List.replicate (8 - (Nat.toDigits 16 n).length) '0' ++ Nat.toDigits 16 n := by
    simp [hex8]
  rw [htext]
  refine ⟨by simp [hle], fun c hc => ?_, ?_⟩
  · rcases List.mem_append.mp hc with hzero | hdigit
    · rw [List.eq_of_mem_replicate hzero]
      decide
    · exact lower_of_mem_toDigits hdigit
  · exact (spells_toDigits n).zeros (by decide) _

/-- A character that is no digit occurs in no number. -/
theorem Spells.not_mem {c : Char} (h : Spells 16 cs n) (hc : digit? 16 c = none) :
    c ∉ cs := by
  intro hmem
  obtain ⟨d, hd⟩ := h.isDigit_of_mem hmem
  exact (digit?_eq_none_iff (by decide)).mp hc d hd

/-- The bytes that pairs of hexadecimal digits spell. -/
def unhex? : List Char → Option (List UInt8)
  | [] => some []
  | [_] => none
  | c :: d :: cs => do
    let high ← digit? 16 c
    let low ← digit? 16 d
    let bs ← unhex? cs
    pure (UInt8.ofNat (16 * high + low) :: bs)

theorem digit?_digitChar {d : Nat} (h : d < 16) : digit? 16 (Nat.digitChar d) = some d :=
  (digit?_eq_some_iff (by decide)).mpr (digitChar_isDigit h)

theorem unhex?_hexByte (b : UInt8) (cs : List Char) :
    unhex? (hexByte b ++ cs) = (unhex? cs).map (b :: ·) := by
  have hb : b.toNat < 256 := b.toNat_lt
  have hhigh := digit?_digitChar (d := b.toNat / 16) (by omega)
  have hlow := digit?_digitChar (d := b.toNat % 16) (by omega)
  have hbyte : UInt8.ofNat (16 * (b.toNat / 16) + b.toNat % 16) = b := by
    rw [Nat.div_add_mod, UInt8.ofNat_toNat]
  simp only [hexByte, List.cons_append, List.nil_append, unhex?, hhigh, hlow,
    Option.bind_eq_bind, Option.bind_some, hbyte]
  cases unhex? cs <;> rfl

theorem unhex?_flatMap (bs : List UInt8) : unhex? (bs.flatMap hexByte) = some bs := by
  induction bs with
  | nil => rfl
  | cons b bs ih => rw [List.flatMap_cons, unhex?_hexByte, ih, Option.map_some]

theorem not_mem_flatMap {c : Char} (hc : digit? 16 c = none) (bs : List UInt8) :
    c ∉ bs.flatMap hexByte := by
  have hne : ∀ d < 16, c ≠ Nat.digitChar d := by
    intro d hd heq
    rw [heq, digit?_digitChar hd] at hc
    cases hc
  simp only [List.mem_flatMap, hexByte, List.mem_cons, List.not_mem_nil, or_false, not_exists,
    not_and, not_or]
  intro b _
  have hb : b.toNat < 256 := b.toNat_lt
  exact ⟨hne _ (by omega), hne _ (by omega)⟩

theorem length_flatMap (bs : List UInt8) : (bs.flatMap hexByte).length = 2 * bs.length := by
  induction bs with
  | nil => rfl
  | cons b bs ih => simp [ih, hexByte, Nat.mul_succ]

/-! ## Lines -/

theorem splitOn_lines {ls : List (List Char)} (h : ∀ l ∈ ls, '\n' ∉ l) :
    (ls.flatMap (· ++ ['\n'])).splitOn '\n' = ls ++ [[]] := by
  induction ls with
  | nil => rfl
  | cons l ls ih =>
      rw [List.flatMap_cons, List.append_assoc, List.singleton_append,
        List.splitOn_append_cons_self_of_not_mem (h l (by simp)),
        ih fun l' hl' => h l' (by simp [hl'])]
      rfl

end Text

namespace Dump

open Text (hex8 hexByte unhex? EightDigits)

/-- The character that shows a byte: itself, or a point if it cannot be seen. -/
def Glyph (b : UInt8) (c : Char) : Prop :=
  if 0x21 ≤ b.toNat ∧ b.toNat ≤ 0x7E then c.toNat = b.toNat else c = '.'

/-- The digits on a line, without the blanks behind them. -/
def hexColumn (line : List Char) : List Char :=
  ((line.drop 10).take 32).takeWhile (· ≠ ' ')

/-- The characters on a line, without the bar behind them. -/
def asciiColumn (line : List Char) : List Char :=
  (line.drop 45).dropLast

/-- A line that shows the bytes at an address, with each column in its place. -/
structure Row (a : Nat) (bs : List UInt8) (line : List Char) : Prop where
  shape : line = line.take 8 ++ "  ".toList ++ (hexColumn line).rightpad 32 ' ' ++
    "  |".toList ++ asciiColumn line ++ "|".toList
  address : EightDigits a (line.take 8)
  hex : unhex? (hexColumn line) = some bs
  ascii : List.Forall₂ Glyph bs (asciiColumn line)

/-- The line that shows the two registers. -/
def RegisterLine (memEnd stackStart : Address) (line : List Char) : Prop :=
  ∃ e s, line = "mem_end: 0x".toList ++ e ++ "  stack_start: 0x".toList ++ s ∧
    EightDigits memEnd.toNat e ∧ EightDigits stackStart.toNat s

/-- A text that is the dump of a range that holds `bs`. -/
def Tells (start stop : Nat) (memEnd stackStart : Address) (bs : List UInt8)
    (text : String) : Prop :=
  ∃ registers body,
    text.toList.splitOn '\n' = "--- Memory Dump ---".toList :: registers :: body ++
      ["-------------------".toList, []] ∧
    RegisterLine memEnd stackStart registers ∧
    body.length = (stop - start + 15) / 16 ∧
    (∀ i line, body[i]? = some line →
      Row (start + 16 * i) ((bs.drop (16 * i)).take 16) line) ∧
    unhex? (body.flatMap hexColumn) = some bs ∧
    List.Forall₂ Glyph bs (body.flatMap asciiColumn)

variable {a : Nat} {bs : List UInt8}

theorem glyph_spec (b : UInt8) : Glyph b (glyph b) := by
  have hascii : ∀ n < 0x7F, (Char.ofNat n).toNat = n := by decide
  have hseen : (0x21 ≤ b ∧ b ≤ 0x7E) ↔ 0x21 ≤ b.toNat ∧ b.toNat ≤ 0x7E := by
    simp only [UInt8.le_iff_toNat_le]
    exact Iff.rfl
  rw [Glyph, glyph]
  simp only [hseen]
  split
  · next hin => exact hascii _ (Nat.lt_succ_of_le hin.2)
  · rfl

theorem glyph_ne_newline (b : UInt8) : glyph b ≠ '\n' := by
  have hglyph := glyph_spec b
  intro heq
  rw [heq, Glyph] at hglyph
  split at hglyph
  · next hseen =>
      have hten : '\n'.toNat = 10 := rfl
      omega
  · cases hglyph

theorem glyphs_spec (bs : List UInt8) : List.Forall₂ Glyph bs (bs.map glyph) := by
  rw [List.forall₂_map_right_iff, List.forall₂_same]
  exact fun b _ => glyph_spec b

/-- A line without its line end. -/
def rowOf (a : Nat) (bs : List UInt8) : List Char :=
  (hex8 a).toList ++ "  ".toList ++ (bs.flatMap hexByte).rightpad 32 ' ' ++ "  |".toList ++
    bs.map glyph ++ "|".toList

theorem toList_line (a : Nat) (bs : List UInt8) : (line a bs).toList = rowOf a bs ++ ['\n'] := by
  simp [line, rowOf, lineSize]

theorem columns {address column shown line : List Char} (haddress : address.length = 8)
    (hcolumn : column.length = 32)
    (hline : line = address ++ "  ".toList ++ column ++ "  |".toList ++ shown ++ "|".toList) :
    line.take 8 = address ∧ (line.drop 10).take 32 = column ∧ asciiColumn line = shown := by
  have hpast : address.drop 45 = [] := List.drop_eq_nil_of_le (by omega)
  have hpast' : column.drop 35 = [] := List.drop_eq_nil_of_le (by omega)
  subst hline
  simp [asciiColumn, List.take_append, List.drop_append, haddress, hcolumn, hpast, hpast']

theorem takeWhile_rightpad {c : Char} {cs : List Char} (h : c ∉ cs) (n : Nat) :
    (cs.rightpad n c).takeWhile (· ≠ c) = cs := by
  have hall : ∀ d ∈ cs, decide (d ≠ c) = true := by
    intro d hd
    exact decide_eq_true fun heq => h (heq ▸ hd)
  rw [List.rightpad, List.takeWhile_append_of_pos hall]
  simp

theorem rowOf_columns (ha : a < 2 ^ 32) (hbs : bs.length ≤ 16) :
    (rowOf a bs).take 8 = (hex8 a).toList ∧ hexColumn (rowOf a bs) = bs.flatMap hexByte ∧
      asciiColumn (rowOf a bs) = bs.map glyph := by
  have hnumber := Text.hex8_eightDigits ha
  have hlen := Text.length_flatMap bs
  have hcolumn : ((bs.flatMap hexByte).rightpad 32 ' ').length = 32 := by
    rw [List.length_rightpad]
    omega
  obtain ⟨haddress, hhex, hascii⟩ :=
    columns hnumber.length_eq hcolumn (show rowOf a bs = _ from rfl)
  refine ⟨haddress, ?_, hascii⟩
  rw [hexColumn, hhex, takeWhile_rightpad (Text.not_mem_flatMap (by decide) bs)]

theorem rowOf_row (ha : a < 2 ^ 32) (hbs : bs.length ≤ 16) : Row a bs (rowOf a bs) := by
  obtain ⟨haddress, hhex, hascii⟩ := rowOf_columns ha hbs
  refine ⟨?_, ?_, ?_, ?_⟩
  · rw [haddress, hhex, hascii]
    rfl
  · rw [haddress]
    exact Text.hex8_eightDigits ha
  · rw [hhex, Text.unhex?_flatMap]
  · rw [hascii]
    exact glyphs_spec bs

theorem newline_not_mem_rowOf (ha : a < 2 ^ 32) (bs : List UInt8) : '\n' ∉ rowOf a bs := by
  have haddress : '\n' ∉ (hex8 a).toList :=
    (Text.hex8_eightDigits ha).spells.not_mem (by decide)
  have hdigits := Text.not_mem_flatMap (c := '\n') (by decide) bs
  have hglyphs : '\n' ∉ bs.map glyph := by
    simpa using fun b _ => glyph_ne_newline b
  simp [rowOf, List.rightpad, haddress, hdigits, hglyphs]

/-- The line with the registers. -/
def registersOf (memEnd stackStart : Address) : List Char :=
  "mem_end: 0x".toList ++ (hex8 memEnd.toNat).toList ++ "  stack_start: 0x".toList ++
    (hex8 stackStart.toNat).toList

theorem registersOf_line (memEnd stackStart : Address) :
    RegisterLine memEnd stackStart (registersOf memEnd stackStart) :=
  ⟨_, _, rfl, Text.hex8_eightDigits memEnd.toNat_lt, Text.hex8_eightDigits stackStart.toNat_lt⟩

theorem newline_not_mem_registersOf (memEnd stackStart : Address) :
    '\n' ∉ registersOf memEnd stackStart := by
  have hend := (Text.hex8_eightDigits memEnd.toNat_lt).spells.not_mem (c := '\n') (by decide)
  have hstart :=
    (Text.hex8_eightDigits stackStart.toNat_lt).spells.not_mem (c := '\n') (by decide)
  unfold registersOf
  simp only [List.mem_append, not_or]
  exact ⟨⟨⟨by decide, hend⟩, by decide⟩, hstart⟩

theorem RegisterLine.unique {memEnd memEnd' stackStart stackStart' : Address}
    {line : List Char} (h : RegisterLine memEnd stackStart line)
    (h' : RegisterLine memEnd' stackStart' line) :
    memEnd = memEnd' ∧ stackStart = stackStart' := by
  obtain ⟨e, s, rfl, he, hs⟩ := h
  obtain ⟨e', s', heq, he', hs'⟩ := h'
  have hlen : e.length = e'.length := he.length_eq.trans he'.length_eq.symm
  simp only [List.append_assoc, List.append_cancel_left_eq] at heq
  obtain ⟨rfl, hrest⟩ := List.append_inj heq hlen
  obtain rfl := List.append_cancel_left hrest
  exact ⟨UInt32.toNat_inj.mp (he.spells.unique (by decide) he'.spells),
    UInt32.toNat_inj.mp (hs.spells.unique (by decide) hs'.spells)⟩

/-- A text is the dump of one range of bytes at most, and of one pair of registers. -/
theorem Tells.unique {start stop : Nat} {memEnd memEnd' stackStart stackStart' : Address}
    {bs bs' : List UInt8} {text : String} (h : Tells start stop memEnd stackStart bs text)
    (h' : Tells start stop memEnd' stackStart' bs' text) :
    memEnd = memEnd' ∧ stackStart = stackStart' ∧ bs = bs' := by
  obtain ⟨registers, body, hlines, hregisters, -, -, hhex, -⟩ := h
  obtain ⟨registers', body', hlines', hregisters', -, -, hhex', -⟩ := h'
  rw [hlines] at hlines'
  simp only [List.cons_append, List.cons.injEq, true_and] at hlines'
  obtain ⟨rfl, hbody⟩ := hlines'
  rw [List.append_cancel_right hbody, hhex'] at hhex
  obtain ⟨hend, hstart⟩ := hregisters.unique hregisters'
  exact ⟨hend, hstart, (Option.some.inj hhex).symm⟩

end Dump

namespace Memory

/-- The bytes of a line are the next sixteen of the range, or what is left of it. -/
theorem extract_piece (m : Memory) (start stop i : Nat) :
    m.extract (start + 16 * i) (min stop (start + 16 * i + 16)) =
      ((m.extract start stop).drop (16 * i)).take 16 := by
  simp only [extract_eq_take, List.drop_take, List.drop_drop, List.take_take]
  congr 1
  omega

end Memory

namespace Machine

open Dump

variable {m : Machine} {memEnd stackStart : Address} {start stop : Nat}

/-- The lines of the body of a dump. -/
def dumpRows (m : Machine) (start stop : Nat) : List (List Char) :=
  (List.range ((stop - start + 15) / 16)).map fun i =>
    rowOf (start + 16 * i) (((m.memory.extract start stop).drop (16 * i)).take 16)

theorem dump_lines (hm : m.Shows stackStart memEnd) (hlt : start < stop)
    (hle : stop ≤ m.memory.size) :
    ∃ text, m.dump start stop = .ok text ∧
      text.toList = (["--- Memory Dump ---".toList, registersOf memEnd stackStart] ++
        m.dumpRows start stop ++ ["-------------------".toList]).flatMap (· ++ ['\n']) := by
  rw [Machine.dump, if_neg (Nat.not_le.mpr hlt), if_neg (Nat.not_lt.mpr hle),
    hm.memEnd_eq, hm.stackStart_eq]
  refine ⟨_, rfl, ?_⟩
  have hrows : (String.join (Dump.lines m.memory start stop)).toList =
      (m.dumpRows start stop).flatMap (· ++ ['\n']) := by
    simp only [String.toList_join, Dump.lines, lineStarts, dumpRows, List.flatMap_map,
      lineSize, toList_line, Memory.extract_piece]
  unfold registersOf
  simp [hrows, Text.hexNumber]

section

variable (hm : m.Shows stackStart memEnd) (hle : stop ≤ m.memory.size)
include hm hle

/-- Every line starts inside the range, so that eight digits are enough for its address. -/
theorem lineStart_lt {i : Nat} (hi : i < (stop - start + 15) / 16) :
    start + 16 * i < 2 ^ 32 := by
  have hspace : m.memory.size < 2 ^ 32 := hm.size_lt
  omega

/-- A column of all lines, read in order, is that column for the whole range. -/
theorem dumpRows_column {column : List Char → List Char} {f : UInt8 → List Char}
    (hcolumn : ∀ a bs, a < 2 ^ 32 → bs.length ≤ 16 → column (rowOf a bs) = bs.flatMap f) :
    (m.dumpRows start stop).flatMap column = (m.memory.extract start stop).flatMap f := by
  have hlen : (m.memory.extract start stop).length = stop - start := Memory.length_extract hle
  have hwhole : (m.memory.extract start stop).take (16 * ((stop - start + 15) / 16)) =
      m.memory.extract start stop :=
    List.take_of_length_le (by omega)
  rw [← hwhole, ← flatMap_pieces, List.flatMap_assoc, dumpRows, List.flatMap_map]
  refine List.flatMap_congr fun i hi => ?_
  exact hcolumn _ _ (lineStart_lt hm hle (List.mem_range.mp hi)) (List.length_take_le _ _)

theorem dumpRows_row {i : Nat} {line : List Char}
    (h : (m.dumpRows start stop)[i]? = some line) :
    Row (start + 16 * i) (((m.memory.extract start stop).drop (16 * i)).take 16) line := by
  simp only [dumpRows, List.getElem?_map, Option.map_eq_some_iff, List.getElem?_eq_some_iff,
    List.getElem_range, List.length_range] at h
  obtain ⟨_, ⟨hi, rfl⟩, rfl⟩ := h
  exact rowOf_row (lineStart_lt hm hle hi) (List.length_take_le _ _)

theorem newline_not_mem_dumpRows {line : List Char} (h : line ∈ m.dumpRows start stop) :
    '\n' ∉ line := by
  obtain ⟨i, hi, rfl⟩ := List.mem_map.mp h
  exact newline_not_mem_rowOf (lineStart_lt hm hle (List.mem_range.mp hi)) _

theorem dump_tells (hlt : start < stop) :
    ∃ text, m.dump start stop = .ok text ∧
      Tells start stop memEnd stackStart (m.memory.extract start stop) text := by
  obtain ⟨text, hdump, hlines⟩ := dump_lines hm hlt hle
  refine ⟨text, hdump, _, m.dumpRows start stop, ?_, registersOf_line memEnd stackStart,
    by simp [dumpRows], fun i line => dumpRows_row hm hle, ?_, ?_⟩
  · rw [hlines, Text.splitOn_lines]
    · simp
    · intro line hline
      simp only [List.mem_append, List.mem_cons, List.not_mem_nil, or_false] at hline
      rcases hline with ((rfl | rfl) | hrow) | rfl
      · decide
      · exact newline_not_mem_registersOf memEnd stackStart
      · exact newline_not_mem_dumpRows hm hle hrow
      · decide
  · rw [dumpRows_column hm hle fun a bs ha hbs => (rowOf_columns ha hbs).2.1,
      Text.unhex?_flatMap]
  · rw [dumpRows_column (f := fun b => [glyph b]) hm hle fun a bs ha hbs => ?_]
    · rw [← List.map_eq_flatMap]
      exact glyphs_spec _
    · rw [(rowOf_columns ha hbs).2.2, List.map_eq_flatMap]

end

theorem dump_cases (hm : m.Shows stackStart memEnd) (start stop : Nat) :
    (stop ≤ start ∧ m.dump start stop = .error .emptyRange) ∨
      (start < stop ∧ m.memory.size < stop ∧
        m.dump start stop = .error .rangeOutOfBounds) ∨
      (start < stop ∧ stop ≤ m.memory.size ∧ ∃ text, m.dump start stop = .ok text ∧
        Tells start stop memEnd stackStart (m.memory.extract start stop) text) := by
  rcases Nat.lt_or_ge start stop with hlt | hge
  · rcases Nat.lt_or_ge m.memory.size stop with hpast | hle
    · exact .inr (.inl ⟨hlt, hpast, (if_neg (Nat.not_le.mpr hlt)).trans (if_pos hpast)⟩)
    · exact .inr (.inr ⟨hlt, hle, dump_tells hm hle hlt⟩)
  · exact .inl ⟨hge, if_pos hge⟩

theorem tells_of_dump (hm : m.Shows stackStart memEnd) {text : String}
    (h : m.dump start stop = .ok text) :
    Tells start stop memEnd stackStart (m.memory.extract start stop) text := by
  rcases dump_cases hm start stop with ⟨-, hdump⟩ | ⟨-, -, hdump⟩ | ⟨-, -, text', hdump, htells⟩
  · rw [hdump] at h
    cases h
  · rw [hdump] at h
    cases h
  · rw [hdump] at h
    cases h
    exact htells

theorem Driven.shows (hm : m.Driven) : ∃ stackStart memEnd, m.Shows stackStart memEnd := by
  obtain ⟨hlo, hhi⟩ := hm.size
  exact shows_of_size (by omega) (Nat.lt_of_le_of_lt hhi (by decide))

/-- A machine that has been set up and driven by any steps, and a range. Dumping faults
if the range is empty, which is seen first, or reaches past memory, and not otherwise.
The text tells the two registers and the bytes of the range, so that a machine dumped
to the same text has the same ones. -/
theorem dump_faithful {m : Machine} (hm : m.Driven) (start stop : Nat) :
    let answer := (m.dump start stop).mapError Fault.message
    (answer = .error "invalid memory range" ↔ stop ≤ start) ∧
    (answer = .error "range out of bounds" ↔ start < stop ∧ m.memory.size < stop) ∧
    ((∃ message, answer = .error message) ↔ stop ≤ start ∨ m.memory.size < stop) ∧
    (start < stop → stop ≤ m.memory.size → ∃ text memEnd stackStart,
      m.dump start stop = .ok text ∧ m.memEnd = .ok memEnd ∧ m.stackStart = .ok stackStart ∧
      Tells start stop memEnd stackStart (m.memory.extract start stop) text) ∧
    (∀ (m' : Machine) (text : String), m'.Driven → m.dump start stop = .ok text →
      m'.dump start stop = .ok text →
      m'.memory.extract start stop = m.memory.extract start stop ∧ m'.memEnd = m.memEnd ∧
        m'.stackStart = m.stackStart) := by
  intro answer
  obtain ⟨stackStart, memEnd, hshows⟩ := hm.shows
  have hcases := dump_cases hshows start stop
  have hempty : Fault.emptyRange.message = "invalid memory range" := rfl
  have houtside : Fault.rangeOutOfBounds.message = "range out of bounds" := rfl
  refine ⟨?_, ?_, ?_, fun hlt hle => ?_, fun m' text hm' hdump hdump' => ?_⟩
  · rcases hcases with ⟨hge, hdump⟩ | ⟨hlt, hpast, hdump⟩ | ⟨hlt, hle, text, hdump, -⟩
    · simp [answer, hdump, Except.mapError, hempty, hge]
    · simp [answer, hdump, Except.mapError, houtside, hlt]
    · simp [answer, hdump, Except.mapError, hlt]
  · rcases hcases with ⟨hge, hdump⟩ | ⟨hlt, hpast, hdump⟩ | ⟨hlt, hle, text, hdump, -⟩
    · simp [answer, hdump, Except.mapError, hempty, Nat.not_lt.mpr hge]
    · simp [answer, hdump, Except.mapError, houtside, hlt, hpast]
    · simp [answer, hdump, Except.mapError, Nat.not_lt.mpr hle]
  · rcases hcases with ⟨hge, hdump⟩ | ⟨hlt, hpast, hdump⟩ | ⟨hlt, hle, text, hdump, -⟩
    · simp [answer, hdump, Except.mapError, hge]
    · simp [answer, hdump, Except.mapError, hpast]
    · simp [answer, hdump, Except.mapError, Nat.not_le.mpr hlt, Nat.not_lt.mpr hle]
  · obtain ⟨text, hdump, htells⟩ := dump_tells hshows hle hlt
    exact ⟨text, memEnd, stackStart, hdump, hshows.memEnd_eq, hshows.stackStart_eq, htells⟩
  · obtain ⟨stackStart', memEnd', hshows'⟩ := hm'.shows
    obtain ⟨hend, hstart, hbytes⟩ :=
      (tells_of_dump hshows hdump).unique (tells_of_dump hshows' hdump')
    rw [hshows.memEnd_eq, hshows.stackStart_eq, hshows'.memEnd_eq, hshows'.stackStart_eq,
      hend, hstart, hbytes]
    exact ⟨rfl, rfl, rfl⟩

/-- A range that is not aligned and ends in a short line, dumped from two machines that
differ right below it. -/
theorem dump_faithful_short_line :
    let session := fun steps =>
      (Session.after MachineStep.run steps (.ofMachine (laidOut ⟨264, 256, 0⟩))).machine
    let m := session [.write 250 [0x41, 0x0A]]
    let m' := session [.write 250 [0x41, 0x0A], .write 244 [0x41]]
    m.Driven ∧ m'.Driven ∧ m ≠ m' ∧
      (∃ text memEnd stackStart, m.dump 245 263 = .ok text ∧ m'.dump 245 263 = .ok text ∧
        Tells 245 263 memEnd stackStart (m.memory.extract 245 263) text) ∧
      m'.memory.extract 245 263 = m.memory.extract 245 263 ∧
      (m.dump 265 265).mapError Fault.message = .error "invalid memory range" ∧
      (m.dump 263 265).mapError Fault.message = .error "range out of bounds" := by
  intro session m m'
  have hvalid : (⟨264, 256, 0⟩ : Layout).Valid := ⟨by decide, by decide, by decide⟩
  have hdriven : ∀ steps, (session steps).Driven := fun steps =>
    ⟨_, steps, .ofLayout (ofLayout_of_valid hvalid), rfl⟩
  have hm : m.Driven := hdriven _
  have hsize : m.memory.size = 264 := by decide +kernel
  obtain ⟨hempty, -⟩ := dump_faithful hm 265 265
  obtain ⟨-, houtside, -⟩ := dump_faithful hm 263 265
  obtain ⟨-, -, -, htells, hsame⟩ := dump_faithful hm 245 263
  obtain ⟨text, memEnd, stackStart, hdump, -, -, htext⟩ :=
    htells (by decide) (by rw [hsize]; decide)
  have hdump' : m'.dump 245 263 = .ok text := by
    have halike : (m'.dump 245 263).toOption = (m.dump 245 263).toOption := by decide +kernel
    rw [hdump] at halike
    cases hrun : m'.dump 245 263 with
    | error e =>
        rw [hrun] at halike
        cases halike
    | ok text' =>
        rw [hrun] at halike
        cases halike
        rfl
  obtain ⟨hbytes, -⟩ := hsame m' text (hdriven _) hdump hdump'
  exact ⟨hm, hdriven _, by decide +kernel, ⟨text, memEnd, stackStart, hdump, hdump', htext⟩,
    hbytes, hempty.mpr (by decide), houtside.mpr ⟨by decide, by rw [hsize]; decide⟩⟩

end Machine

end FlatMachine
