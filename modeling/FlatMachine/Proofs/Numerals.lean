import FlatMachine.Proofs.Words
import FlatMachine.Text.Number
import Mathlib.Data.List.Forall2
import Mathlib.Data.Nat.Digits.Defs
import Mathlib.Tactic.IntervalCases

/-!
# Numbers and the digits that spell them

A number is read by a loop that keeps the value of what it has read and stops at the
first character it cannot use. What a text means should not depend on that. Here a
row of digits spells the number that positional notation gives it, however long it
is, and a row overflows if some part at its front spells a number that no word can
hold.

The loop notices trouble one character at a time, so all that is to be shown is that
it cannot miss any: the value it keeps is spelled by what it has read and still fits
in a word. A digit that takes it past that overflows on the spot. A character that is
no digit ends every row that could still be spelled, and all the rows before it are
known to fit.
-/

namespace FlatMachine.Text

/-- A character that stands for `d` in a radix of sixteen at most, in either case. -/
def IsDigit (radix : Nat) (c : Char) (d : Nat) : Prop :=
  d < radix ∧
    ("0123456789abcdef".toList[d]? = some c ∨ "0123456789ABCDEF".toList[d]? = some c)

/-- A row of digits, the most significant first, and the number that it spells. -/
def Spells (radix : Nat) (cs : List Char) (n : Nat) : Prop :=
  ∃ ds, List.Forall₂ (IsDigit radix) cs ds ∧ Nat.ofDigits radix ds.reverse = n

/-- A row of characters that begins with a number too large for a word. -/
def Overflows (radix : Nat) (cs : List Char) : Prop :=
  ∃ front n, front <+: cs ∧ Spells radix front n ∧ 2 ^ 32 ≤ n

variable {radix n k d d' : Nat} {c : Char} {cs front rest before : List Char}

/-! ## Digits -/

theorem digit?_eq_some_iff (hradix : radix ≤ 16) :
    digit? radix c = some d ↔ IsDigit radix c d := by
  have hle : ∀ a b : Char, a ≤ b ↔ a.toNat ≤ b.toNat := fun _ _ => Iff.rfl
  simp only [digit?, Option.filter_eq_some_iff, decide_eq_true_eq, IsDigit, hle,
    and_comm (b := d < radix)]
  refine and_congr_right fun hd => ⟨fun h => ?_, fun h => ?_⟩
  · have hchar : ∀ n, c.toNat = n → some (Char.ofNat n) = some c := by
      intro n hn
      rw [← hn, Char.ofNat_toNat]
    have hnumeral : ∀ d < 10,
        "0123456789abcdef".toList[d]? = some (Char.ofNat (48 + d)) := by decide
    have hlower : ∀ d < 16, 10 ≤ d →
        "0123456789abcdef".toList[d]? = some (Char.ofNat (87 + d)) := by decide
    have hupper : ∀ d < 16, 10 ≤ d →
        "0123456789ABCDEF".toList[d]? = some (Char.ofNat (55 + d)) := by decide
    simp only [Char.reduceToNat] at h
    split at h
    · cases h
      exact .inl ((hnumeral _ (by omega)).trans (hchar _ (by omega)))
    · split at h
      · cases h
        exact .inl ((hlower _ (by omega) (by omega)).trans (hchar _ (by omega)))
      · split at h
        · cases h
          exact .inr ((hupper _ (by omega) (by omega)).trans (hchar _ (by omega)))
        · cases h
  · have hd16 : d < 16 := by omega
    interval_cases d <;> simp at h <;> obtain rfl | rfl := h <;> decide

theorem digit?_eq_none_iff (hradix : radix ≤ 16) :
    digit? radix c = none ↔ ∀ d, ¬ IsDigit radix c d := by
  simp only [Option.eq_none_iff_forall_ne_some, ne_eq, digit?_eq_some_iff hradix]

theorem IsDigit.unique (hradix : radix ≤ 16) (h : IsDigit radix c d)
    (h' : IsDigit radix c d') : d = d' := by
  rw [← digit?_eq_some_iff hradix] at h h'
  exact Option.some.inj (h.symm.trans h')

namespace Spells

theorem nil : Spells radix [] 0 :=
  ⟨[], .nil, rfl⟩

theorem concat (h : Spells radix cs n) (hc : IsDigit radix c d) :
    Spells radix (cs ++ [c]) (n * radix + d) := by
  obtain ⟨ds, hds, rfl⟩ := h
  refine ⟨ds ++ [d], List.rel_append hds (.cons hc .nil), ?_⟩
  simp [Nat.ofDigits_cons, Nat.mul_comm, Nat.add_comm]

theorem isDigit_of_mem (h : Spells radix cs n) (hc : c ∈ cs) : ∃ d, IsDigit radix c d := by
  obtain ⟨ds, hds, -⟩ := h
  induction hds with
  | nil => simp at hc
  | cons hd _ ih =>
      rcases List.mem_cons.mp hc with rfl | hmem
      · exact ⟨_, hd⟩
      · exact ih hmem

/-- Every row at the front of a row spells a number too, and none that is larger. -/
theorem of_append (hradix : 0 < radix) (h : Spells radix (front ++ rest) n) :
    ∃ k, Spells radix front k ∧ k ≤ n := by
  obtain ⟨ds, hds, rfl⟩ := h
  refine ⟨_, ⟨ds.take front.length, ?_, rfl⟩, ?_⟩
  · simpa using List.forall₂_take front.length hds
  · conv => rhs; rw [← List.take_append_drop front.length ds]
    rw [List.reverse_append, Nat.ofDigits_append]
    exact Nat.le_add_left_of_le (Nat.le_mul_of_pos_left _ (Nat.pow_pos hradix))

theorem unique (hradix : radix ≤ 16) (h : Spells radix cs n) (h' : Spells radix cs k) :
    n = k := by
  obtain ⟨ds, hds, rfl⟩ := h
  obtain ⟨ds', hds', rfl⟩ := h'
  have hdigit : Relator.RightUnique (IsDigit radix) := fun _ _ _ => IsDigit.unique hradix
  rw [List.right_unique_forall₂' hdigit hds hds']

end Spells

/-- A row that spells a word does not overflow. -/
theorem not_overflows (hpos : 0 < radix) (hradix : radix ≤ 16) (h : Spells radix cs n)
    (hn : n < 2 ^ 32) : ¬ Overflows radix cs := by
  rintro ⟨front, k, ⟨rest, rfl⟩, hfront, hk⟩
  obtain ⟨k', hfront', hle⟩ := h.of_append hpos
  have heq := hfront.unique hradix hfront'
  omega

/-! ## The loop -/

/-- What comes of reading a row of characters. -/
inductive Judged (radix : Nat) (cs : List Char) : Except NumberError UInt32 → Prop
  | number {v : UInt32} (hspells : Spells radix cs v.toNat) : Judged radix cs (.ok v)
  | tooLarge (hover : Overflows radix cs) : Judged radix cs (.error .tooLarge)
  | invalid (hfits : ¬ Overflows radix cs) (hbad : ∀ n, ¬ Spells radix cs n) :
      Judged radix cs (.error .invalidDigit)

theorem front_of_not_mem (h : front <+: before ++ c :: rest) (hc : c ∉ front) :
    front <+: before := by
  have hupto : before ++ [c] <+: before ++ c :: rest := ⟨rest, by simp⟩
  rcases List.prefix_or_prefix_of_prefix h hupto with hle | hge
  · rcases List.prefix_concat_iff.mp hle with rfl | hbefore
    · simp at hc
    · exact hbefore
  · exact absurd (hge.subset (by simp)) hc

/-- By induction on the characters that are left, with what has been read in front of
them: it spells the value that the loop keeps, and that fits in a word. -/
theorem readDigits_judged (hpos : 0 < radix) (hradix : radix ≤ 16)
    (hbefore : Spells radix before n) (hn : n < 2 ^ 32) :
    Judged radix (before ++ cs) (readDigits radix n cs) := by
  induction cs generalizing before n with
  | nil =>
      rw [readDigits, List.append_nil]
      refine .number ?_
      rwa [Address.toNat_ofNat_of_lt hn]
  | cons c cs ih =>
      rw [readDigits]
      cases hdigit : digit? radix c with
      | none =>
          have hnone := (digit?_eq_none_iff hradix).mp hdigit
          refine .invalid ?_ fun k hk => ?_
          · rintro ⟨front, k, hfront, hk, hlarge⟩
            have hc : c ∉ front := fun hmem =>
              (hk.isDigit_of_mem hmem).elim hnone
            exact not_overflows hpos hradix hbefore hn
              ⟨front, k, front_of_not_mem hfront hc, hk, hlarge⟩
          · obtain ⟨d, hd⟩ := hk.isDigit_of_mem (c := c) (by simp)
            exact hnone d hd
      | some d =>
          have hnext := hbefore.concat ((digit?_eq_some_iff hradix).mp hdigit)
          rw [List.append_cons]
          show Judged _ _ (if n * radix + d < 2 ^ 32 then _ else _)
          split
          · next hfits => exact ih hnext hfits
          · next hlarge =>
              exact .tooLarge ⟨_, _, List.prefix_append _ _, hnext, Nat.le_of_not_lt hlarge⟩

namespace Judged

variable {answer : Except NumberError UInt32}

theorem ne_empty (h : Judged radix cs answer) : answer ≠ .error .empty := by
  intro he
  rw [he] at h
  cases h

section

variable (hpos : 0 < radix) (hradix : radix ≤ 16) (h : Judged radix cs answer)
include hpos hradix h

theorem eq_ok_iff (v : UInt32) : answer = .ok v ↔ Spells radix cs v.toNat := by
  cases h with
  | number hspells =>
      rw [Except.ok.injEq]
      refine ⟨fun heq => heq ▸ hspells, fun hv => ?_⟩
      exact UInt32.toNat_inj.mp (hspells.unique hradix hv)
  | tooLarge hover => simpa using fun hv => not_overflows hpos hradix hv v.toNat_lt hover
  | invalid hfits hbad => simpa using hbad v.toNat

theorem eq_tooLarge_iff : answer = .error .tooLarge ↔ Overflows radix cs := by
  cases h with
  | @number v hspells => simpa using not_overflows hpos hradix hspells v.toNat_lt
  | tooLarge hover => simpa using hover
  | invalid hfits hbad => simpa using hfits

omit hpos hradix in
theorem eq_invalidDigit_iff : answer = .error .invalidDigit ↔
    ¬ Overflows radix cs ∧ ∀ v : UInt32, ¬ Spells radix cs v.toNat := by
  cases h with
  | number hspells => simpa using fun _ => ⟨_, hspells⟩
  | tooLarge hover => simpa using fun hfits => absurd hover hfits
  | invalid hfits hbad => simpa using ⟨hfits, fun v => hbad v.toNat⟩

end

end Judged

/-! ## Texts -/

/-- The texts that are marked as hexadecimal. -/
def Marked (s : String) : Prop :=
  ['0', 'x'] <+: s.toList ∨ ['0', 'X'] <+: s.toList

instance (s : String) : Decidable (Marked s) :=
  inferInstanceAs (Decidable (_ ∨ _))

def radixOf (s : String) : Nat :=
  if Marked s then 16 else 10

/-- What comes behind the mark, if there is one. -/
def bodyOf (s : String) : List Char :=
  if Marked s then s.toList.drop 2 else s.toList

/-- What comes behind a plus sign, if there is one and anything comes behind it. -/
def digitsOf (body : List Char) : List Char :=
  if ['+'] <+: body ∧ 1 < body.length then body.drop 1 else body

theorem radixOf_bounds (s : String) : 0 < radixOf s ∧ radixOf s ≤ 16 := by
  unfold radixOf
  split <;> decide

theorem digitsOf_eq_nil_iff {body : List Char} : digitsOf body = [] ↔ body = [] := by
  unfold digitsOf
  split
  · next hplus =>
      have hlen := hplus.2
      rw [List.drop_eq_nil_iff, ← List.length_eq_zero_iff]
      omega
  · exact Iff.rfl

theorem readNumber_eq (s : String) :
    readNumber s = readUnsigned (radixOf s) (bodyOf s) := by
  unfold readNumber
  split
  · next cs hs => simp [radixOf, bodyOf, Marked, hs]
  · next cs hs => simp [radixOf, bodyOf, Marked, hs]
  · next hx hX =>
      have hplain : ¬ Marked s := by
        rintro (⟨cs, hs⟩ | ⟨cs, hs⟩)
        · exact hx cs hs.symm
        · exact hX cs hs.symm
      rw [radixOf, bodyOf, if_neg hplain, if_neg hplain]

theorem readUnsigned_eq {body : List Char} (hbody : body ≠ []) :
    readUnsigned radix body = readDigits radix 0 (digitsOf body) := by
  unfold readUnsigned
  split
  · exact absurd rfl hbody
  · simp [digitsOf]
  · next hplus =>
      rw [digitsOf, if_neg]
      rintro ⟨⟨rest, rfl⟩, hlen⟩
      cases rest with
      | nil => simp at hlen
      | cons c cs => exact hplus c cs rfl

theorem readNumber_of_empty {s : String} (h : bodyOf s = []) :
    readNumber s = .error .empty := by
  rw [readNumber_eq, h, readUnsigned]

theorem readNumber_judged {s : String} (h : bodyOf s ≠ []) :
    Judged (radixOf s) (digitsOf (bodyOf s)) (readNumber s) := by
  obtain ⟨hpos, hradix⟩ := radixOf_bounds s
  rw [readNumber_eq, readUnsigned_eq h]
  exact readDigits_judged hpos hradix .nil (by decide)

section

variable {s : String}

theorem readNumber_ok_iff {v : UInt32} : readNumber s = .ok v ↔
    digitsOf (bodyOf s) ≠ [] ∧ Spells (radixOf s) (digitsOf (bodyOf s)) v.toNat := by
  obtain ⟨hpos, hradix⟩ := radixOf_bounds s
  by_cases hbody : bodyOf s = []
  · simp [readNumber_of_empty hbody, digitsOf_eq_nil_iff, hbody]
  · simp [(readNumber_judged hbody).eq_ok_iff hpos hradix, digitsOf_eq_nil_iff, hbody]

theorem readNumber_empty_iff : readNumber s = .error .empty ↔ bodyOf s = [] := by
  by_cases hbody : bodyOf s = []
  · simp [readNumber_of_empty hbody, hbody]
  · simp [(readNumber_judged hbody).ne_empty, hbody]

theorem readNumber_tooLarge_iff : readNumber s = .error .tooLarge ↔
    bodyOf s ≠ [] ∧ Overflows (radixOf s) (digitsOf (bodyOf s)) := by
  obtain ⟨hpos, hradix⟩ := radixOf_bounds s
  by_cases hbody : bodyOf s = []
  · simp [readNumber_of_empty hbody, hbody]
  · simp [(readNumber_judged hbody).eq_tooLarge_iff hpos hradix, hbody]

theorem readNumber_invalidDigit_iff : readNumber s = .error .invalidDigit ↔
    bodyOf s ≠ [] ∧ ¬ Overflows (radixOf s) (digitsOf (bodyOf s)) ∧
      ∀ v : UInt32, ¬ Spells (radixOf s) (digitsOf (bodyOf s)) v.toNat := by
  by_cases hbody : bodyOf s = []
  · simp [readNumber_of_empty hbody, hbody]
  · simp [(readNumber_judged hbody).eq_invalidDigit_iff, hbody]

end

theorem message_inj {e e' : NumberError} : e.message = e'.message ↔ e = e' := by
  cases e <;> cases e' <;> simp [NumberError.message]

theorem describe_inj {e e' : NumberError} {s : String} :
    e.describe s = e'.describe s ↔ e = e' := by
  rw [← message_inj]
  exact String.append_right_inj ("invalid number '" ++ s ++ "': ")

/-- Reading answers with a number exactly if the text is one: digits of its radix, at
least one of them, with a value that a word can hold. If not, the complaint quotes the
text as it is. It says that there was nothing to read if nothing follows the mark, that
the number is too large if the digits at the front already are, and that a digit is
invalid if neither is so. -/
theorem readNumber_reads_grammar (s : String) :
    let answer := (readNumber s).mapError (·.describe s)
    let complaint := fun reason => "invalid number '" ++ s ++ "': " ++ reason
    let body := bodyOf s
    let digits := digitsOf body
    (∀ v, answer = .ok v ↔ digits ≠ [] ∧ Spells (radixOf s) digits v.toNat) ∧
    (answer = .error (complaint "cannot parse integer from empty string") ↔ body = []) ∧
    (answer = .error (complaint "number too large to fit in target type") ↔
      body ≠ [] ∧ Overflows (radixOf s) digits) ∧
    (answer = .error (complaint "invalid digit found in string") ↔
      body ≠ [] ∧ ¬ Overflows (radixOf s) digits ∧
        ∀ v : UInt32, ¬ Spells (radixOf s) digits v.toNat) := by
  intro answer complaint body digits
  have hok : ∀ v, answer = .ok v ↔ readNumber s = .ok v := by
    intro v
    cases hread : readNumber s <;> simp [answer, hread, Except.mapError]
  have herror : ∀ e : NumberError,
      answer = .error (complaint e.message) ↔ readNumber s = .error e := by
    intro e
    cases hread : readNumber s with
    | ok v => simp [answer, hread, Except.mapError]
    | error e' =>
        simp only [answer, hread, Except.mapError, Except.error.injEq]
        exact describe_inj
  exact ⟨fun v => (hok v).trans readNumber_ok_iff, (herror .empty).trans readNumber_empty_iff,
    (herror .tooLarge).trans readNumber_tooLarge_iff,
    (herror .invalidDigit).trans readNumber_invalidDigit_iff⟩

end FlatMachine.Text
