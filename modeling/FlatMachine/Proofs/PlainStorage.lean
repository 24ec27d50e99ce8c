import FlatMachine.Proofs.Actions
import FlatMachine.Proofs.Words
import FlatMachine.Ram

/-!
# Words on plain storage

A bus is plain storage if a store is seen by every later load of its address, and by
nothing else. What such a bus keeps besides, a record of the accesses for instance, is
its own business, so all that is said here is about its contents, one byte for each
address.

The address space is a circle, and a word may lie across the place where it closes. No
case is made of that. How far an address lies past another is their difference, which
wraps by itself, and an address belongs to the word at `a` if it lies fewer than four
past `a`. With these offsets a word is stored and loaded in the same way everywhere,
and two words share a byte exactly if one starts inside the other.
-/

namespace FlatMachine

/-! ## Offsets on the circle -/

namespace Address

/-- How far two addresses lie apart, the shorter way around. -/
def cyclicDistance (a b : Address) : Nat :=
  min (b - a).toNat (a - b).toNat

theorem add_offset (a c : Address) : a + UInt32.ofNat (c - a).toNat = c := by
  rw [UInt32.ofNat_toNat, UInt32.add_comm]
  exact UInt32.sub_add_cancel c a

theorem offset_add {k : Nat} (h : k < space) (a : Address) :
    (a + UInt32.ofNat k - a).toNat = k := by
  rw [UInt32.add_comm, UInt32.add_sub_cancel]
  exact toNat_ofNat_of_lt h

theorem offset_succ_self (a : Address) : (a - (a + 1)).toNat = space - 1 := by
  have ha : a.toNat < 2 ^ 32 := a.toNat_lt
  have hone : (1 : UInt32).toNat = 1 := rfl
  rw [UInt32.toNat_sub, UInt32.toNat_add, hone, space]
  omega

theorem offset_succ {a c : Address} (h : a ≠ c) :
    (c - a).toNat = (c - (a + 1)).toNat + 1 := by
  have ha : a.toNat < 2 ^ 32 := a.toNat_lt
  have hc : c.toNat < 2 ^ 32 := c.toNat_lt
  have hone : (1 : UInt32).toNat = 1 := rfl
  have hne : a.toNat ≠ c.toNat := fun heq => h (UInt32.toNat_inj.mp heq)
  rw [UInt32.toNat_sub, UInt32.toNat_sub, UInt32.toNat_add, hone]
  omega

theorem offset_lt_four_iff {a c : Address} :
    (c - a).toNat < 4 ↔ ∃ k, k < 4 ∧ c = a + UInt32.ofNat k := by
  constructor
  · intro h
    exact ⟨_, h, (add_offset a c).symm⟩
  · rintro ⟨k, hk, rfl⟩
    rwa [offset_add (Nat.lt_trans hk (by decide))]

/-- Two words have no byte in common exactly if they start at least four bytes apart. -/
theorem four_le_cyclicDistance_iff {a b : Address} :
    4 ≤ a.cyclicDistance b ↔ ∀ c : Address, (c - a).toNat < 4 → ¬ (c - b).toNat < 4 := by
  constructor
  · intro h c hca hcb
    have ha : a.toNat < 2 ^ 32 := a.toNat_lt
    have hb : b.toNat < 2 ^ 32 := b.toNat_lt
    have hc : c.toNat < 2 ^ 32 := c.toNat_lt
    rw [cyclicDistance, UInt32.toNat_sub, UInt32.toNat_sub] at h
    rw [UInt32.toNat_sub] at hca hcb
    omega
  · intro h
    have hself : ∀ c : Address, (c - c).toNat < 4 := fun c => by
      rw [UInt32.sub_self]
      decide
    -- A word that started inside the other would share its own first byte.
    exact Nat.le_min.mpr ⟨Nat.le_of_not_lt fun hlt => h b hlt (hself b),
      Nat.le_of_not_lt (h a (hself a))⟩

end Address

/-! ## Contents -/

/-- What stands at each address. -/
abbrev Contents := Address → UInt8

namespace Contents

/-- The bytes from an address up. -/
def bytes (f : Contents) (a : Address) (n : Nat) : List UInt8 :=
  (List.range n).map fun k => f (a + UInt32.ofNat k)

/-- The contents after bytes are stored from an address up. -/
def overlay (f : Contents) (a : Address) (bs : List UInt8) : Contents :=
  fun c => (bs[(c - a).toNat]?).getD (f c)

/-- The word at an address. -/
def word (f : Contents) (a : Address) : UInt32 :=
  Word.ofBytes (f.bytes a 4)

/-- The contents after a word is stored. -/
def putWord (f : Contents) (a : Address) (w : UInt32) : Contents :=
  f.overlay a (Word.toBytes w)

variable {f g : Contents} {a : Address}

@[simp] theorem length_bytes (f : Contents) (a : Address) (n : Nat) :
    (f.bytes a n).length = n := by
  rw [bytes, List.length_map, List.length_range]

theorem bytes_succ (f : Contents) (a : Address) (n : Nat) :
    f.bytes a (n + 1) = f a :: f.bytes (a + 1) n := by
  simp only [bytes, List.range_succ_eq_map, List.map_cons, List.map_map,
    Address.add_ofNat_zero, Function.comp_def, Address.succ_add_ofNat]

theorem bytes_getElem? {n k : Nat} (h : k < n) :
    (f.bytes a n)[k]? = some (f (a + UInt32.ofNat k)) := by
  rw [bytes, List.getElem?_map, List.getElem?_range h]
  rfl

theorem overlay_cons {x : UInt8} {bs : List UInt8} (hlen : bs.length < Address.space)
    (hg : ∀ c, g c = if a = c then x else f c) :
    g.overlay (a + 1) bs = f.overlay a (x :: bs) := by
  funext c
  rw [overlay, overlay, hg]
  by_cases hc : a = c
  · -- Fewer bytes than addresses are left, so none of them comes around to the first.
    subst hc
    have hpast : bs[(a - (a + 1)).toNat]? = none := by
      rw [Address.offset_succ_self]
      exact List.getElem?_eq_none (by omega)
    rw [hpast, if_pos rfl, UInt32.sub_self]
    rfl
  · rw [if_neg hc, Address.offset_succ hc, List.getElem?_cons_succ]

theorem bytes_overlay (f : Contents) (a : Address) {bs : List UInt8}
    (hlen : bs.length ≤ Address.space) : (f.overlay a bs).bytes a bs.length = bs := by
  apply List.ext_getElem?
  intro k
  rcases Nat.lt_or_ge k bs.length with hk | hk
  · rw [bytes_getElem? hk, overlay, Address.offset_add (Nat.lt_of_lt_of_le hk hlen),
      List.getElem?_eq_getElem hk]
    rfl
  · rw [List.getElem?_eq_none hk, List.getElem?_eq_none (by rwa [length_bytes])]

theorem overlay_bytes (f g : Contents) (a : Address) (n : Nat) (c : Address) :
    f.overlay a (g.bytes a n) c = if (c - a).toNat < n then g c else f c := by
  rw [overlay]
  split
  · next hin =>
      rw [bytes_getElem? hin, Address.add_offset]
      rfl
  · next hout =>
      rw [List.getElem?_eq_none (by rw [length_bytes]; exact Nat.le_of_not_lt hout)]
      rfl

theorem putWord_apply (f : Contents) (a : Address) (w : UInt32) (c : Address) :
    f.putWord a w c =
      if (c - a).toNat < 4 then UInt8.ofNat (w.toNat / 256 ^ (c - a).toNat) else f c := by
  rw [putWord, overlay]
  split
  · next hin =>
      rw [Word.toBytes_getElem? hin]
      rfl
  · next hout =>
      rw [List.getElem?_eq_none (by rw [Word.length_toBytes]; exact Nat.le_of_not_lt hout)]
      rfl

theorem putWord_inside {k : Nat} (hk : k < 4) (f : Contents) (a : Address) (w : UInt32) :
    f.putWord a w (a + UInt32.ofNat k) = UInt8.ofNat (w.toNat / 256 ^ k) := by
  have hoffset := Address.offset_add (Nat.lt_trans hk (by decide)) a
  rw [putWord_apply, hoffset, if_pos hk]

theorem putWord_outside {c : Address} (hc : ∀ k, k < 4 → c ≠ a + UInt32.ofNat k)
    (f : Contents) (w : UInt32) : f.putWord a w c = f c := by
  rw [putWord_apply, if_neg]
  intro hin
  obtain ⟨k, hk, heq⟩ := Address.offset_lt_four_iff.mp hin
  exact hc k hk heq

theorem toBytes_word (f : Contents) (a : Address) : Word.toBytes (f.word a) = f.bytes a 4 :=
  Word.toBytes_ofBytes (length_bytes f a 4)

theorem toNat_word (f : Contents) (a : Address) :
    (f.word a).toNat = (f a).toNat + 256 * (f (a + 1)).toNat +
      65536 * (f (a + 2)).toNat + 16777216 * (f (a + 3)).toNat := by
  have hbytes : f.bytes a 4 = [f (a + UInt32.ofNat 0), f (a + 1), f (a + 2), f (a + 3)] := rfl
  rw [word, Word.toNat_ofBytes (length_bytes f a 4), hbytes, Address.add_ofNat_zero]
  simp only [Word.value]
  omega

theorem word_putWord (f : Contents) (a : Address) (w : UInt32) :
    (f.putWord a w).word a = w := by
  have hbytes : (f.putWord a w).bytes a 4 = Word.toBytes w := by
    have hlen := Word.length_toBytes w
    rw [← hlen]
    exact bytes_overlay f a (by rw [hlen]; decide)
  rw [word, hbytes, Word.ofBytes_toBytes]

theorem putWord_word (f : Contents) (a : Address) : f.putWord a (f.word a) = f := by
  funext c
  rw [putWord, toBytes_word, overlay_bytes, ite_self]

theorem word_eq_iff : f.word a = g.word a ↔ ∀ c : Address, (c - a).toNat < 4 → f c = g c := by
  constructor
  · intro h c hc
    have hbytes : f.bytes a 4 = g.bytes a 4 := by
      rw [← toBytes_word, h, toBytes_word]
    have hbyte := congrArg (fun bs => bs[(c - a).toNat]?) hbytes
    simp only [bytes_getElem? hc, Address.add_offset] at hbyte
    exact Option.some.inj hbyte
  · intro h
    have hbytes : f.bytes a 4 = g.bytes a 4 := by
      refine List.map_congr_left fun k hk => h _ ?_
      exact Address.offset_lt_four_iff.mpr ⟨k, List.mem_range.mp hk, rfl⟩
    rw [word, word, hbytes]

theorem exists_putWord_eq (x : UInt8) : ∃ w : UInt32, ∀ (f : Contents) (a c : Address),
    (c - a).toNat < 4 → f.putWord a w c = x := by
  refine ⟨Word.ofBytes (List.replicate 4 x), fun f a c hc => ?_⟩
  rw [putWord, Word.toBytes_ofBytes List.length_replicate, overlay,
    List.getElem?_replicate_of_lt hc]
  rfl

/-- Stores of two words can be exchanged, whatever the words, exactly if they are apart. -/
theorem putWord_comm_iff (f : Contents) (a b : Address) :
    4 ≤ a.cyclicDistance b ↔
      ∀ v w, (f.putWord a v).putWord b w = (f.putWord b w).putWord a v := by
  rw [Address.four_le_cyclicDistance_iff]
  constructor
  · intro hapart v w
    funext c
    simp only [putWord_apply]
    by_cases hca : (c - a).toNat < 4
    · rw [if_neg (hapart c hca), if_pos hca, if_pos hca]
    · rw [if_neg hca, if_neg hca]
  · intro hcomm c hca hcb
    -- On a shared byte the later store wins, and so the order can be told.
    obtain ⟨v, hv⟩ := exists_putWord_eq 0
    obtain ⟨w, hw⟩ := exists_putWord_eq 1
    have hlast := congrFun (hcomm v w) c
    rw [hv _ a c hca, hw _ b c hcb] at hlast
    exact absurd hlast (by decide)

/-- A word is untouched by stores of another, whatever is stored, exactly if they are
apart. -/
theorem word_putWord_eq_iff (f : Contents) (a b : Address) :
    4 ≤ a.cyclicDistance b ↔ ∀ v, (f.putWord a v).word b = f.word b := by
  rw [Address.four_le_cyclicDistance_iff]
  constructor
  · intro hapart v
    refine word_eq_iff.mpr fun c hcb => ?_
    rw [putWord_apply, if_neg fun hca => hapart c hca hcb]
  · intro hsame c hca hcb
    obtain ⟨v, hv⟩ := exists_putWord_eq (f c + 1)
    have hbyte := word_eq_iff.mp (hsame v) c hcb
    rw [hv f a c hca] at hbyte
    exact absurd hbyte (by simp)

end Contents

/-! ## Runs on plain storage -/

/-- An action answers, and leaves these contents. -/
def Action.Yields {σ α : Type} (read : σ → Contents) (x : Action σ α) (s : σ) (r : α)
    (f : Contents) : Prop :=
  ∃ s', x s = .ok r s' ∧ read s' = f

namespace Action.Yields

variable {σ α β : Type} {read : σ → Contents} {x : Action σ α} {s : σ} {r r' : α}
  {f f' : Contents}

theorem pure (read : σ → Contents) (r : α) (s : σ) :
    Yields read (pure r) s r (read s) :=
  ⟨s, rfl, rfl⟩

theorem bind {y : α → Action σ β} {q : β} (hx : Yields read x s r f)
    (hy : ∀ s', read s' = f → Yields read (y r) s' q f') : Yields read (x >>= y) s q f' := by
  obtain ⟨s', hrun, hread⟩ := hx
  obtain ⟨s'', hrest, hread'⟩ := hy s' hread
  exact ⟨s'', (bind_ok hrun).trans hrest, hread'⟩

theorem unique (h : Yields read x s r f) (h' : Yields read x s r' f') : r' = r ∧ f' = f := by
  obtain ⟨s₁, hrun, rfl⟩ := h
  obtain ⟨s₂, hrun', rfl⟩ := h'
  cases hrun.symm.trans hrun'
  exact ⟨rfl, rfl⟩

end Action.Yields

open FlatMachine.Action (Yields)

/-- A bus that is plain storage, as far as its contents go: a load answers the byte that
is there and changes nothing, and a store changes the one byte. -/
structure Bus.Plain {σ : Type} [Bus σ] (read : σ → Contents) : Prop where
  load : ∀ a s, Yields read (Bus.load a) s (read s a) (read s)
  store : ∀ a x s, Yields read (Bus.store a x) s () fun c => if a = c then x else read s c

namespace Bus.Plain

variable {σ : Type} [Bus σ] {read : σ → Contents}

theorem loadBytes (h : Bus.Plain read) (n : Nat) (a : Address) (s : σ) :
    Yields read (Bus.loadBytes n a) s ((read s).bytes a n) (read s) := by
  induction n generalizing a s with
  | zero => exact .pure read [] s
  | succ n ih =>
      rw [Contents.bytes_succ]
      refine .bind (h.load a s) fun s₁ h₁ => ?_
      have hrest := ih (a + 1) s₁
      rw [h₁] at hrest
      refine .bind hrest fun s₂ h₂ => ?_
      rw [← h₂]
      exact .pure read _ s₂

theorem storeBytes (h : Bus.Plain read) (a : Address) {bs : List UInt8}
    (hlen : bs.length ≤ Address.space) (s : σ) :
    Yields read (Bus.storeBytes a bs) s () ((read s).overlay a bs) := by
  induction bs generalizing a s with
  | nil => exact .pure read () s
  | cons x bs ih =>
      refine .bind (h.store a x s) fun s₁ h₁ => ?_
      rw [← Contents.overlay_cons hlen (congrFun h₁)]
      exact ih (a + 1) (Nat.le_of_lt hlen) s₁

theorem loadWord (h : Bus.Plain read) (a : Address) (s : σ) :
    Yields read (Bus.loadWord a) s ((read s).word a) (read s) := by
  refine .bind (h.loadBytes Word.size a s) fun s₁ h₁ => ?_
  rw [← h₁]
  exact .pure read _ s₁

theorem storeWord (h : Bus.Plain read) (a : Address) (w : UInt32) (s : σ) :
    Yields read (Bus.storeWord a w) s () ((read s).putWord a w) :=
  h.storeBytes a (by rw [Word.length_toBytes]; decide) s

/-- Storing a byte at every address, plain storage comes to hold any contents. -/
theorem exists_read_eq (h : Bus.Plain read) (s : σ) (f : Contents) : ∃ s', read s' = f := by
  have hlen : (f.bytes 0 Address.space).length ≤ Address.space :=
    Nat.le_of_eq (Contents.length_bytes f 0 Address.space)
  obtain ⟨s', -, hread⟩ := h.storeBytes 0 hlen s
  refine ⟨s', hread.trans ?_⟩
  funext c
  rw [Contents.overlay_bytes, if_pos (Address.toNat_lt_space _)]

theorem storeWord_loadWord (h : Bus.Plain read) (a b : Address) (v : UInt32) (s : σ) :
    Yields read (do Bus.storeWord a v; Bus.loadWord b) s (((read s).putWord a v).word b)
      ((read s).putWord a v) := by
  refine .bind (h.storeWord a v s) fun s' hs' => ?_
  rw [← hs']
  exact h.loadWord b s'

theorem storeWord_loaded (h : Bus.Plain read) (a : Address) (s : σ) :
    Yields read (do Bus.storeWord a (← Bus.loadWord a)) s () (read s) := by
  refine .bind (h.loadWord a s) fun s' hs' => ?_
  have hstore := h.storeWord a ((read s).word a) s'
  rwa [hs', Contents.putWord_word] at hstore

theorem storeWord_storeWord (h : Bus.Plain read) (a b : Address) (v w : UInt32) (s : σ) :
    Yields read (do Bus.storeWord a v; Bus.storeWord b w) s ()
      (((read s).putWord a v).putWord b w) := by
  refine .bind (h.storeWord a v s) fun s' hs' => ?_
  rw [← hs']
  exact h.storeWord b w s'

end Bus.Plain

/-! ## The storage at hand -/

namespace Ram

theorem read_write (m : Ram) (a a' : Address) (b : UInt8) :
    (m.write a b).read a' = if a = a' then b else m.read a' := by
  simp [read, write, Std.ExtTreeMap.getD_insert]

@[simp] theorem read_empty (a : Address) : ({} : Ram).read a = 0 := by
  simp [read]

theorem plain : Bus.Plain Ram.read where
  load _ m := ⟨m, rfl, rfl⟩
  store a x m := by
    refine ⟨_, rfl, ?_⟩
    funext c
    exact read_write m a c x

/-- Every contents of the address space is that of some storage. -/
theorem exists_read_eq (contents : Address → UInt8) : ∃ m : Ram, m.read = contents :=
  plain.exists_read_eq {} contents

end Ram

theorem TracedRam.plain : Bus.Plain fun m : TracedRam => m.ram.read where
  load _ _ := ⟨_, rfl, rfl⟩
  store a x m := by
    obtain ⟨ram, hrun, hread⟩ := Ram.plain.store a x m.ram
    cases hrun
    exact ⟨_, rfl, hread⟩

/-! ## Word accesses -/

namespace Bus.Plain

variable {σ : Type} [Bus σ] {read : σ → Contents}

/-- Words on plain storage with any contents, at any address, also around the end of the
address space. A word that has been stored is loaded again, its bytes stand at the four
addresses from its own up, and no other byte has changed. A load answers the
little-endian number of the four bytes, and storing it again changes nothing. Stores at
two addresses can be exchanged exactly if the addresses are at least four apart on the
circle, and exactly then a load from one does not see what is stored at the other. -/
theorem word_accesses_wrap (h : Bus.Plain read) (s : σ) (a b : Address) :
    (∀ f : Contents, ∃ s', read s' = f) ∧
    (∀ v, ∃ f, Yields read (do Bus.storeWord a v; Bus.loadWord a) s v f ∧
      Yields read (Bus.storeWord a v) s () f ∧
      (∀ k, k < 4 → f (a + UInt32.ofNat k) = UInt8.ofNat (v.toNat / 256 ^ k)) ∧
      ∀ c, (∀ k, k < 4 → c ≠ a + UInt32.ofNat k) → f c = read s c) ∧
    (∃ v, Yields read (Bus.loadWord a) s v (read s) ∧
      v.toNat = (read s a).toNat + 256 * (read s (a + 1)).toNat +
        65536 * (read s (a + 2)).toNat + 16777216 * (read s (a + 3)).toNat ∧
      Yields read (do Bus.storeWord a (← Bus.loadWord a)) s () (read s)) ∧
    (4 ≤ a.cyclicDistance b ↔ ∀ v w, ∃ f,
      Yields read (do Bus.storeWord a v; Bus.storeWord b w) s () f ∧
      Yields read (do Bus.storeWord b w; Bus.storeWord a v) s () f) ∧
    (4 ≤ a.cyclicDistance b ↔ ∀ v, ∃ w f, Yields read (Bus.loadWord b) s w (read s) ∧
      Yields read (do Bus.storeWord a v; Bus.loadWord b) s w f) := by
  refine ⟨h.exists_read_eq s, fun v => ⟨(read s).putWord a v, ?_, h.storeWord a v s,
      fun k hk => Contents.putWord_inside hk _ a v, fun c hc => Contents.putWord_outside hc _ v⟩,
    ⟨(read s).word a, h.loadWord a s, Contents.toNat_word _ a, h.storeWord_loaded a s⟩, ?_, ?_⟩
  · have hload := h.storeWord_loadWord a a v s
    rwa [Contents.word_putWord] at hload
  · rw [Contents.putWord_comm_iff (read s)]
    refine forall_congr' fun v => forall_congr' fun w => ⟨fun hcomm => ?_, ?_⟩
    · refine ⟨_, h.storeWord_storeWord a b v w s, ?_⟩
      rw [hcomm]
      exact h.storeWord_storeWord b a w v s
    · rintro ⟨f, hab, hba⟩
      rw [← ((h.storeWord_storeWord a b v w s).unique hab).2,
        ((h.storeWord_storeWord b a w v s).unique hba).2]
  · rw [Contents.word_putWord_eq_iff (read s)]
    refine forall_congr' fun v => ⟨fun hsame => ?_, ?_⟩
    · refine ⟨_, (read s).putWord a v, h.loadWord b s, ?_⟩
      rw [← hsame]
      exact h.storeWord_loadWord a b v s
    · rintro ⟨w, f, hbefore, hafter⟩
      rw [← ((h.storeWord_loadWord a b v s).unique hafter).1,
        ((h.loadWord b s).unique hbefore).1]

/-- A word across the end of the address space, and words four and three bytes on, over
contents that are not all zero. The first of these is apart and the second is not. -/
theorem word_accesses_wrap_around :
    let read : TracedRam → Contents := fun m => m.ram.read
    let m : TracedRam := { ram := (({} : Ram).write Address.last 65).write 1 66 }
    Bus.Plain read ∧
      (∃ f, Yields read (do Bus.storeWord 0xFFFFFFFE 0x44332211; Bus.loadWord 0xFFFFFFFE) m
        0x44332211 f ∧ f 0xFFFFFFFE = 0x11 ∧ f 0xFFFFFFFF = 0x22 ∧ f 0 = 0x33 ∧ f 1 = 0x44 ∧
        f 2 = 0) ∧
      Yields read (Bus.loadWord 0xFFFFFFFE) m 0x42004100 (read m) ∧
      (4 ≤ Address.cyclicDistance 0xFFFFFFFE 2 ∧
        ∃ f, Yields read (do Bus.storeWord 0xFFFFFFFE 1; Bus.storeWord 2 3) m () f ∧
          Yields read (do Bus.storeWord 2 3; Bus.storeWord 0xFFFFFFFE 1) m () f) ∧
      ¬ ∀ v, ∃ w f, Yields read (Bus.loadWord 1) m w (read m) ∧
        Yields read (do Bus.storeWord 0xFFFFFFFE v; Bus.loadWord 1) m w f := by
  intro read m
  have hread : ∀ c, read m c =
      if (1 : Address) = c then 66 else if Address.last = c then 65 else 0 := by
    intro c
    show m.ram.read c = _
    rw [Ram.read_write, Ram.read_write, Ram.read_empty]
  obtain ⟨-, hstore, ⟨x, hload, hvalue, -⟩, hcomm, -⟩ :=
    TracedRam.plain.word_accesses_wrap m 0xFFFFFFFE 2
  obtain ⟨-, -, -, -, hsame⟩ := TracedRam.plain.word_accesses_wrap m 0xFFFFFFFE 1
  refine ⟨TracedRam.plain, ?_, ?_, ⟨by decide, hcomm.mp (by decide) 1 3⟩, fun hall => ?_⟩
  · obtain ⟨f, hback, -, hbytes, hframe⟩ := hstore 0x44332211
    exact ⟨f, hback, hbytes 0 (by decide), hbytes 1 (by decide), hbytes 2 (by decide),
      hbytes 3 (by decide), (hframe 2 (by decide)).trans (hread 2)⟩
  · have hx : x = 0x42004100 := by
      apply UInt32.toNat_inj.mp
      rw [hvalue]
      show (read m 0xFFFFFFFE).toNat + 256 * (read m Address.last).toNat +
        65536 * (read m 0).toNat + 16777216 * (read m 1).toNat = _
      rw [hread, hread, hread, hread]
      decide
    rwa [hx] at hload
  · exact absurd (hsame.mpr hall) (by decide)

end Bus.Plain

end FlatMachine
