import FlatMachine.Proofs.ScriptRun

/-!
# What was said is what is read

A message leaves as text and comes back as text, but in between it is bytes: encoded,
cut at a zero byte, copied through memory one byte at a time, put on the console behind
other messages, and decoded by a decoder that would rather show a replacement than
fail. None of it can be seen in the text.

Two facts carry this. The decoder, fed the bytes of a character where a character
begins, ends up where a character begins with that character added, so it never holds
anything over from one message to the next. Its second byte is the delicate one, since
the range it allows depends on the first. And the only character with a zero byte in
its encoding is the zero character, so cutting bytes is cutting characters.
-/

namespace FlatMachine

namespace Text

/-! ## One character -/

theorem toNat_byte {n : Nat} (h : n < 256) : (UInt8.ofNat n).toNat = n := by
  rw [UInt8.toNat_ofNat']
  exact Nat.mod_eq_of_lt h

theorem contains_iff {r : ByteRange} {b : UInt8} :
    r.contains b = true ↔ r.low.toNat ≤ b.toNat ∧ b.toNat ≤ r.high.toNat := by
  simp only [ByteRange.contains, Bool.and_eq_true, decide_eq_true_eq, UInt8.le_iff_toNat_le]

theorem continuation_contains (n : Nat) :
    continuation.contains (UInt8.ofNat (n % 64 + 128)) = true := by
  rw [contains_iff, toNat_byte (by omega)]
  show 0x80 ≤ _ ∧ _ ≤ 0xBF
  omega

/-- The first of two bytes. -/
theorem start?_two {v : Nat} (hlo : 0x80 ≤ v) (hhi : v < 0x800) :
    Pending.start? (UInt8.ofNat (v / 64 % 32 + 192)) = some ⟨v / 64, continuation, []⟩ := by
  simp only [Pending.start?, toNat_byte (show v / 64 % 32 + 192 < 256 by omega)]
  rw [if_pos (by omega)]
  congr 2
  omega

/-- The first of three bytes, with a range that the second one is in. -/
theorem start?_three {v : Nat} (hlo : 0x800 ≤ v) (hhi : v < 0x10000)
    (hv : v < 0xD800 ∨ 0xDFFF < v) :
    ∃ r, Pending.start? (UInt8.ofNat (v / 4096 % 16 + 224)) =
        some ⟨v / 4096, r, [continuation]⟩ ∧
      r.contains (UInt8.ofNat (v / 64 % 64 + 128)) = true := by
  have hbits : (v / 4096 % 16 + 224) % 16 = v / 4096 := by omega
  simp only [Pending.start?, toNat_byte (show v / 4096 % 16 + 224 < 256 by omega), hbits]
  rw [if_neg (by omega)]
  split
  · next hfirst =>
      -- Anything below the range would have fitted in two bytes.
      refine ⟨_, rfl, contains_iff.mpr ?_⟩
      rw [toNat_byte (by omega)]
      show 0xA0 ≤ _ ∧ _ ≤ 0xBF
      omega
  · split
    · next hfirst =>
        -- Above the range are the surrogates.
        refine ⟨_, rfl, contains_iff.mpr ?_⟩
        rw [toNat_byte (by omega)]
        show 0x80 ≤ _ ∧ _ ≤ 0x9F
        omega
    · rw [if_pos (by omega)]
      exact ⟨_, rfl, continuation_contains _⟩

/-- The first of four bytes, with a range that the second one is in. -/
theorem start?_four {v : Nat} (hlo : 0x10000 ≤ v) (hhi : v < 0x110000) :
    ∃ r, Pending.start? (UInt8.ofNat (v / 262144 % 8 + 240)) =
        some ⟨v / 262144, r, [continuation, continuation]⟩ ∧
      r.contains (UInt8.ofNat (v / 4096 % 64 + 128)) = true := by
  have hbits : (v / 262144 % 8 + 240) % 8 = v / 262144 := by omega
  simp only [Pending.start?, toNat_byte (show v / 262144 % 8 + 240 < 256 by omega), hbits]
  rw [if_neg (by omega), if_neg (by omega), if_neg (by omega), if_neg (by omega)]
  split
  · next hfirst =>
      refine ⟨_, rfl, contains_iff.mpr ?_⟩
      rw [toNat_byte (by omega)]
      show 0x90 ≤ _ ∧ _ ≤ 0xBF
      omega
  · split
    · exact ⟨_, rfl, continuation_contains _⟩
    · rw [if_pos (by omega)]
      refine ⟨_, rfl, contains_iff.mpr ?_⟩
      rw [toNat_byte (by omega)]
      show 0x80 ≤ _ ∧ _ ≤ 0x8F
      omega

namespace Decoder

theorem feed_start {text : String} {b : UInt8} {p : Pending} (hb : 0x80 ≤ b.toNat)
    (h : Pending.start? b = some p) : feed ⟨text, none⟩ b = ⟨text, some p⟩ := by
  have hhigh : ¬ b < 0x80 := UInt8.not_lt.mpr (UInt8.le_iff_toNat_le.mpr hb)
  simp only [feed, begin, if_neg hhigh, h]

theorem feed_more {text : String} {bits : Nat} {r r' : ByteRange} {rs : List ByteRange}
    {b : UInt8} (h : r.contains b = true) :
    feed ⟨text, some ⟨bits, r, r' :: rs⟩⟩ b =
      ⟨text, some ⟨bits * 64 + b.toNat % 64, r', rs⟩⟩ := by
  simp only [feed, h, if_true]

theorem feed_last {text : String} {bits : Nat} {r : ByteRange} {b : UInt8}
    (h : r.contains b = true) :
    feed ⟨text, some ⟨bits, r, []⟩⟩ b =
      ⟨text.push (Char.ofNat (bits * 64 + b.toNat % 64)), none⟩ := by
  simp only [feed, h, if_true]

/-- The bytes of a character, from where a character begins to where the next does. -/
theorem foldl_feed_char (text : String) (c : Char) :
    (String.utf8EncodeChar c).foldl feed ⟨text, none⟩ = ⟨text.push c, none⟩ := by
  have hvalid : c.val.toNat < 0xD800 ∨ 0xDFFF < c.val.toNat ∧ c.val.toNat < 0x110000 := c.valid
  have hchar : ∀ n, n = c.val.toNat → Char.ofNat n = c := by
    rintro n rfl
    exact Char.ofNat_toNat c
  have hlow : ∀ n, (UInt8.ofNat (n % 64 + 128)).toNat % 64 = n % 64 := by
    intro n
    rw [toNat_byte (by omega)]
    omega
  simp only [String.utf8EncodeChar]
  split
  · next h₁ =>
      have hascii : UInt8.ofNat c.val.toNat < 0x80 := by
        rw [UInt8.lt_iff_toNat_lt, toNat_byte (by omega)]
        exact Nat.lt_succ_of_le h₁
      simp only [List.foldl_cons, List.foldl_nil, feed, begin, if_pos hascii]
      rw [hchar _ (toNat_byte (by omega))]
  · next h₁ =>
      split
      · next h₂ =>
          have hstart := start?_two (v := c.val.toNat) (by omega) (by omega)
          rw [List.foldl_cons, feed_start (by rw [toNat_byte (by omega)]; omega) hstart,
            List.foldl_cons, feed_last (continuation_contains _), hlow,
            hchar _ (by omega)]
          rfl
      · next h₂ =>
          split
          · next h₃ =>
              obtain ⟨r, hstart, hsecond⟩ :=
                start?_three (v := c.val.toNat) (by omega) (by omega) (by omega)
              rw [List.foldl_cons, feed_start (by rw [toNat_byte (by omega)]; omega) hstart,
                List.foldl_cons, feed_more hsecond, List.foldl_cons,
                feed_last (continuation_contains _), hlow, hlow, hchar _ (by omega)]
              rfl
          · next h₃ =>
              obtain ⟨r, hstart, hsecond⟩ :=
                start?_four (v := c.val.toNat) (by omega) (by omega)
              rw [List.foldl_cons, feed_start (by rw [toNat_byte (by omega)]; omega) hstart,
                List.foldl_cons, feed_more hsecond, List.foldl_cons,
                feed_more (continuation_contains _), List.foldl_cons,
                feed_last (continuation_contains _), hlow, hlow, hlow, hchar _ (by omega)]
              rfl

theorem foldl_feed_chars (cs : List Char) (text : String) :
    (cs.flatMap String.utf8EncodeChar).foldl feed ⟨text, none⟩ =
      ⟨text ++ String.ofList cs, none⟩ := by
  induction cs generalizing text with
  | nil => simp
  | cons c cs ih =>
      rw [List.flatMap_cons, List.foldl_append, foldl_feed_char, ih, String.ofList_cons,
        String.push_eq_append, String.append_assoc]

end Decoder

theorem decode_encode (s : String) : decode (encode s) = s := by
  rw [decode, encode, Decoder.foldl_feed_chars, String.ofList_toList]
  exact String.empty_append

/-! ## Cutting and joining -/

/-- A text up to its first zero character. -/
def cut (s : String) : String :=
  String.ofList (s.toList.takeWhile (· ≠ '\x00'))

theorem encode_append (s t : String) : encode (s ++ t) = encode s ++ encode t := by
  rw [encode, String.toList_append, List.flatMap_append]
  rfl

theorem encode_join (ss : List String) : encode (String.join ss) = ss.flatMap encode := by
  rw [encode, String.toList_join, List.flatMap_assoc]
  rfl

/-- A single byte is the character itself, and the bytes of a longer encoding are all
marked. -/
theorem byte_ne_zero {c : Char} (hc : c ≠ '\x00') {b : UInt8}
    (hb : b ∈ String.utf8EncodeChar c) : b ≠ 0 := by
  have hpos : c.val.toNat ≠ 0 := by
    intro hzero
    exact hc (Char.ext (UInt32.toNat_inj.mp hzero))
  have hbyte : ∀ n, n < 256 → n ≠ 0 → UInt8.ofNat n ≠ 0 := by
    intro n hn hne hzero
    have hnat := congrArg UInt8.toNat hzero
    rw [toNat_byte hn] at hnat
    exact hne hnat
  simp only [String.utf8EncodeChar] at hb
  split at hb
  · rw [List.mem_singleton] at hb
    exact hb ▸ hbyte _ (by omega) hpos
  · split at hb
    · simp only [List.mem_cons, List.not_mem_nil, or_false] at hb
      rcases hb with rfl | rfl <;> exact hbyte _ (by omega) (by omega)
    · split at hb
      · simp only [List.mem_cons, List.not_mem_nil, or_false] at hb
        rcases hb with rfl | rfl | rfl <;> exact hbyte _ (by omega) (by omega)
      · simp only [List.mem_cons, List.not_mem_nil, or_false] at hb
        rcases hb with rfl | rfl | rfl | rfl <;> exact hbyte _ (by omega) (by omega)

theorem takeWhile_encode (s : String) :
    (encode s).takeWhile (· ≠ 0) = encode (cut s) := by
  rw [encode, encode, cut, String.toList_ofList]
  induction s.toList with
  | nil => rfl
  | cons c cs ih =>
      rw [List.flatMap_cons]
      by_cases hc : c = '\x00'
      · subst hc
        rfl
      · have hkept : ∀ b ∈ String.utf8EncodeChar c, decide (b ≠ 0) = true :=
          fun b hb => decide_eq_true (byte_ne_zero hc hb)
        have hc' : decide (c ≠ '\x00') = true := decide_eq_true hc
        rw [List.takeWhile_append_of_pos hkept, ih, List.takeWhile_cons, if_pos hc',
          List.flatMap_cons]

end Text

/-! ## The text of a script -/

namespace Course

/-- Requests that are served by what they come to are served in the same places. -/
theorem serve_map {α β : Type} (f : α → β) (fits : Nat → β → Bool) (next : Nat → β → Nat)
    (c : Nat) (xs : List α) :
    (serve fits next c (xs.map f)).served =
      (serve (fun c x => fits c (f x)) (fun c x => next c (f x)) c xs).served.map
        fun e => (e.1, f e.2) := by
  induction xs generalizing c with
  | nil => rfl
  | cons x xs ih =>
      rw [List.map_cons, serve, serve]
      split
      · simp only [List.map_cons, ih]
      · rfl

end Course

namespace Script

/-- The messages that are stored between two positions, up to the first that does not
fit with its closing zero. -/
def stored (s : Script) (start stop : Nat) : List String :=
  (Course.serve (fun c t => c + (Text.encode t).length + 1 ≤ stop)
    (fun c t => c + (Text.encode t).length + 1) start s.messages).served.map Prod.snd

theorem texts_flatMap {α : Type} (s : Script) (start stop : Nat) (f : List UInt8 → List α) :
    (s.texts start stop).served.flatMap (fun t => f t.2) =
      (s.stored start stop).flatMap fun t => f (Text.encode t) := by
  rw [texts, Course.ofTexts, Course.serve_map, stored, List.flatMap_map, List.flatMap_map]

theorem encode_lines (s : Script) (start stop : Nat) :
    Text.encode (String.join ((s.stored start stop).map (Text.cut · ++ "\n"))) =
      (s.texts start stop).served.flatMap fun t => t.2.takeWhile (· ≠ 0) ++ [newline] := by
  have hline : ∀ t, Text.encode (Text.cut t ++ "\n") =
      (Text.encode t).takeWhile (· ≠ 0) ++ [newline] := by
    intro t
    rw [Text.encode_append, Text.takeWhile_encode]
    rfl
  rw [Text.encode_join, List.flatMap_map,
    s.texts_flatMap start stop fun t => t.takeWhile (· ≠ 0) ++ [newline]]
  simp only [hline]

theorem encode_cuts (s : Script) (start stop : Nat) :
    Text.encode (String.join ((s.stored start stop).map Text.cut)) =
      (s.texts start stop).served.flatMap fun t => t.2.takeWhile (· ≠ 0) := by
  rw [Text.encode_join, List.flatMap_map,
    s.texts_flatMap start stop fun t => t.takeWhile (· ≠ 0)]
  simp only [Text.takeWhile_encode]

theorem encode_complaint (halted : Bool) :
    Text.encode (if halted then "malloc error: out of memory\n" else "") =
      if halted then outOfMemory ++ [newline] else [] := by
  cases halted <;> rfl

namespace Outcome

variable {s : Script} {start stop : Nat} {m m' : Machine} {r : Report}

theorem consoleText (h : s.Outcome start stop m r m') (hempty : m.console = #[]) :
    m'.consoleText = String.join ((s.stored start stop).map (Text.cut · ++ "\n")) ++
      (if r.halted then "malloc error: out of memory\n" else "") := by
  rw [Machine.consoleText, h.console, hempty, List.nil_append, ← encode_lines, ← h.halted,
    ← encode_complaint, ← Text.encode_append, Text.decode_encode]

theorem bufferText (h : s.Outcome start stop m r m') :
    r.printBuffer.text = String.join ((s.stored start stop).map Text.cut) := by
  rw [PrintBuffer.text, h.printBuffer, ← encode_cuts, Text.decode_encode]

end Outcome

/-- A script shows the messages that it stored, each cut before its first zero
character and otherwise as it was given: the bytes on the console and in the buffer
are again encodings, so reading them loses nothing and replaces nothing. -/
theorem run_shows_messages (s : Script) {m : Machine} {stackStart memEnd : Address}
    (hm : m.Ready stackStart memEnd) (hempty : m.console = #[]) :
    ∃ r m', s.run m = .ok r m' ∧
      m'.consoleText =
        String.join ((s.stored (stackStart.toNat + 4) memEnd.toNat).map (Text.cut · ++ "\n")) ++
          (if r.halted then "malloc error: out of memory\n" else "") ∧
      r.printBuffer.text =
        String.join ((s.stored (stackStart.toNat + 4) memEnd.toNat).map Text.cut) := by
  obtain ⟨r, m', hrun, houtcome⟩ := s.run_outcome hm
  exact ⟨r, m', hrun, houtcome.consoleText hempty, houtcome.bufferText⟩

/-- Characters of every encoded length, one message with a zero in it and one that is
itself the replacement character, on a heap that is too small for the last. -/
theorem run_shows_messages_multibyte :
    let s : Script := ⟨["é€😀\x00é", "\uFFFD~", "too long for it"], [1]⟩
    let m := Machine.laidOut ⟨290, 256, 0⟩
    m.Ready 256 290 ∧ m.console = #[] ∧ ∃ r m', s.run m = .ok r m' ∧
      m'.consoleText = String.join ["é€😀\n", "\uFFFD~\n"] ++
        (if r.halted then "malloc error: out of memory\n" else "") ∧
      r.printBuffer.text = "é€😀\uFFFD~" := by
  have hvalid : (⟨290, 256, 0⟩ : Layout).Valid := ⟨by decide, by decide, by decide⟩
  have hready : (Machine.laidOut ⟨290, 256, 0⟩).Ready 256 290 :=
    Machine.laidOut_ready hvalid
  obtain ⟨r, m', hrun, hconsole, hbuffer⟩ := run_shows_messages
    ⟨["é€😀\x00é", "\uFFFD~", "too long for it"], [1]⟩ hready rfl
  refine ⟨hready, rfl, r, m', hrun, hconsole.trans ?_, hbuffer.trans ?_⟩
  · congr 1
  · decide +kernel

end Script

end FlatMachine
