import FlatMachine.Output
import FlatMachine.Proofs.PlainStorage
import Mathlib.Data.Nat.Find

/-!
# Printing from plain storage

On plain storage nothing stops a walk along a string but a zero byte, and the walk
wraps around. It also prints while it reads, and what it prints goes to address zero,
which is storage like any other. So a walk that comes around meets its own last byte
there, and a zero that stood at address zero is gone by then. That byte is the one of
the last address, which was read one step before and was not zero, or the walk would
have ended with it.

Each byte that a walk sees is thus known beforehand, `Ram.seen`, for as many steps as
one likes. Whether the walk ends is a question about this sequence, and within one
turn it has seen every address but the sink. A walk that has not ended by then never
will, which is why the budget of `printLineAt` is no restriction.
-/

namespace FlatMachine

/-! ## The walk without a budget -/

section Walk

variable {σ : Type} [Bus σ] {a : Address} {s s' s'' : σ}

/-- The walk along a string with no bound on it: load a byte, stop at a zero, and else
write it and go on. -/
inductive WritesString : Address → σ → σ → Prop
  | stop {a : Address} {s s' : σ} (hload : Bus.load a s = .ok 0 s') : WritesString a s s'
  | next {a : Address} {c : UInt8} {s s₁ s₂ s' : σ} (hload : Bus.load a s = .ok c s₁)
      (hc : c ≠ 0) (hwrite : writeChar c s₁ = .ok () s₂)
      (hrest : WritesString (a + 1) s₂ s') : WritesString a s s'

/-- Such a walk, and then a newline. -/
def PrintsLine (a : Address) (s s' : σ) : Prop :=
  ∃ s₁, WritesString a s s₁ ∧ writeChar newline s₁ = .ok () s'

/-- The walk ends if and only if some budget is enough for it. -/
theorem writesString_iff :
    WritesString a s s' ↔ ∃ n, writeStringFrom n a s = .ok () s' := by
  constructor
  · intro h
    induction h with
    | stop hload => exact ⟨1, Action.bind_ok hload⟩
    | next hload hc hwrite _ ih =>
        obtain ⟨n, hn⟩ := ih
        refine ⟨n + 1, ?_⟩
        rw [writeStringFrom, Action.bind_ok hload, if_neg hc, Action.bind_ok hwrite, hn]
  · rintro ⟨n, hn⟩
    induction n generalizing a s with
    | zero => cases hn
    | succ n ih =>
        rw [writeStringFrom] at hn
        cases hload : Bus.load a s with
        | error e s₁ =>
            rw [Action.bind_error hload] at hn
            cases hn
        | ok c s₁ =>
            rw [Action.bind_ok hload] at hn
            by_cases hc : c = 0
            · subst hc
              cases hn
              exact .stop hload
            · rw [if_neg hc] at hn
              cases hwrite : writeChar c s₁ with
              | error e s₂ =>
                  rw [Action.bind_error hwrite] at hn
                  cases hn
              | ok u s₂ =>
                  rw [Action.bind_ok hwrite] at hn
                  exact .next hload hc hwrite (ih hn)

theorem WritesString.unique (h : WritesString a s s') (h' : WritesString a s s'') :
    s'' = s' := by
  induction h with
  | stop hload =>
      cases h' with
      | stop hload' =>
          cases hload.symm.trans hload'
          rfl
      | next hload' hc =>
          cases hload.symm.trans hload'
          exact absurd rfl hc
  | next hload hc hwrite _ ih =>
      cases h' with
      | stop hload' =>
          cases hload.symm.trans hload'
          exact absurd rfl hc
      | next hload' _ hwrite' hrest =>
          cases hload.symm.trans hload'
          cases hwrite.symm.trans hwrite'
          exact ih hrest

end Walk

/-! ## What a walk sees -/

namespace Ram

/-- The byte that a walk from `a` sees at its step `k`: what stands there, except that
the sink, once the walk has come around to it, holds the byte of the last address. -/
def seen (m : Ram) (a : Address) (k : Nat) : UInt8 :=
  if k ≠ 0 ∧ a + UInt32.ofNat k = Register.sink.address then m.read Address.last
  else m.read (a + UInt32.ofNat k)

variable {m : Ram} {a : Address}

theorem seen_of_ne {k : Nat} (h : a + UInt32.ofNat k ≠ Register.sink.address) :
    m.seen a k = m.read (a + UInt32.ofNat k) :=
  if_neg fun hk => h hk.2

/-- Around the address space, the sink shows what was seen one step before. -/
theorem seen_wrapped {k : Nat} (h : a + UInt32.ofNat (k + 1) = Register.sink.address) :
    m.seen a (k + 1) = m.read Address.last ∧ m.seen a k = m.read Address.last := by
  have hlast : a + UInt32.ofNat k = Address.last := by
    rw [Address.add_ofNat_succ] at h
    have hback : a + UInt32.ofNat k = Register.sink.address - 1 := by
      rw [← h]
      exact (UInt32.add_sub_cancel _ 1).symm
    exact hback.trans (by decide)
  refine ⟨if_pos ⟨Nat.succ_ne_zero k, h⟩, ?_⟩
  rw [seen_of_ne (by rw [hlast]; decide), hlast]

/-- Within one turn a walk sees every address but the sink. -/
theorem exists_seen (m : Ram) (a : Address) {b : Address} (hb : b ≠ Register.sink.address) :
    ∃ k, k < Address.space ∧ m.seen a k = m.read b := by
  refine ⟨(b - a).toNat, Address.toNat_lt_space _, ?_⟩
  rw [seen_of_ne (by rwa [Address.add_offset]), Address.add_offset]

/-- There is a zero to stop at: one at the sink counts only for a walk that starts
there. -/
def HasEnd (m : Ram) (a : Address) : Prop :=
  (a = Register.sink.address ∧ m.read Register.sink.address = 0) ∨
    ∃ b, b ≠ Register.sink.address ∧ m.read b = 0

theorem exists_seen_zero (h : m.HasEnd a) : ∃ k, k < Address.space ∧ m.seen a k = 0 := by
  rcases h with ⟨rfl, hzero⟩ | ⟨b, hb, hzero⟩
  · exact ⟨0, by decide, hzero⟩
  · obtain ⟨k, hk, hseen⟩ := exists_seen m a hb
    exact ⟨k, hk, hseen.trans hzero⟩

theorem hasEnd_of_seen {k : Nat} (h : m.seen a k = 0) : m.HasEnd a := by
  by_cases hsink : a + UInt32.ofNat k = Register.sink.address
  · cases k with
    | zero =>
        have hstart : a = Register.sink.address := (Address.add_ofNat_zero a).symm.trans hsink
        refine .inl ⟨hstart, ?_⟩
        rw [← hsink]
        exact h
    | succ k => exact .inr ⟨Address.last, by decide, (seen_wrapped hsink).1.symm.trans h⟩
  · exact .inr ⟨_, hsink, (seen_of_ne hsink).symm.trans h⟩

end Ram

/-! ## Walking and printing -/

namespace TracedRam

/-- The accesses of the first `k` steps of a walk: each byte is loaded, and stored at
the sink. -/
def stepAccesses (m : Ram) (a : Address) (k : Nat) : List Access :=
  (List.range k).flatMap fun i =>
    [⟨.load, a + UInt32.ofNat i, m.seen a i⟩, ⟨.store, Register.sink.address, m.seen a i⟩]

/-- The storage after `k` steps of a walk: the sink holds the byte seen last, and the
accesses are on record. -/
structure Walked (m : TracedRam) (a : Address) (k : Nat) (m' : TracedRam) : Prop where
  read_eq : ∀ b, m'.ram.read b =
    if b = Register.sink.address ∧ k ≠ 0 then m.ram.seen a (k - 1) else m.ram.read b
  accesses_eq : m'.accesses = m.accesses ++ stepAccesses m.ram a k

variable {m m' : TracedRam} {a : Address} {j k n : Nat}

theorem walked_zero (m : TracedRam) (a : Address) : m.Walked a 0 m where
  read_eq _ := (if_neg fun h => h.2 rfl).symm
  accesses_eq := (List.append_nil _).symm

theorem accesses_record (m : TracedRam) (x : Access) :
    (m.record x).accesses = m.accesses ++ [x] :=
  List.reverse_cons

/-- The aliasing, and all of it: the one address whose byte has changed is the sink,
and a walk that finds itself there again sees the byte of the last address. -/
theorem Walked.sees (h : m.Walked a k m') :
    m'.ram.read (a + UInt32.ofNat k) = m.ram.seen a k := by
  rw [h.read_eq]
  cases k with
  | zero =>
      rw [if_neg fun hk => hk.2 rfl]
      exact (if_neg fun hk => hk.1 rfl).symm
  | succ k =>
      by_cases hsink : a + UInt32.ofNat (k + 1) = Register.sink.address
      · obtain ⟨hnow, hbefore⟩ := Ram.seen_wrapped (m := m.ram) hsink
        rw [if_pos ⟨hsink, Nat.succ_ne_zero k⟩, hnow]
        exact hbefore
      · rw [if_neg fun hk => hsink hk.1, Ram.seen_of_ne hsink]

theorem Walked.load (h : m.Walked a k m') :
    Bus.load (a + UInt32.ofNat k) m' =
      .ok (m.ram.seen a k) (m'.record ⟨.load, a + UInt32.ofNat k, m.ram.seen a k⟩) := by
  rw [← h.sees]
  rfl

theorem Walked.next (h : m.Walked a k m') :
    ∃ m'', writeChar (m.ram.seen a k)
        (m'.record ⟨.load, a + UInt32.ofNat k, m.ram.seen a k⟩) = .ok () m'' ∧
      m.Walked a (k + 1) m'' := by
  refine ⟨_, rfl, fun b => ?_, ?_⟩
  · show (m'.ram.write Register.sink.address (m.ram.seen a k)).read b = _
    rw [Ram.read_write, h.read_eq]
    by_cases hb : b = Register.sink.address
    · rw [if_pos hb.symm, if_pos ⟨hb, Nat.succ_ne_zero k⟩]
      rfl
    · rw [if_neg (Ne.symm hb), if_neg fun hk => hb hk.1, if_neg fun hk => hb hk.1]
  · rw [accesses_record]
    show (m'.record _).accesses ++ _ = _
    rw [accesses_record, h.accesses_eq]
    simp [stepAccesses, List.range_succ]

theorem Walked.run_ok (h : m.Walked a j m') (hzero : m.ram.seen a (j + k) = 0)
    (hbefore : ∀ i, i < j + k → m.ram.seen a i ≠ 0) (hn : k < n) :
    ∃ m'', m.Walked a (j + k) m'' ∧
      writeStringFrom n (a + UInt32.ofNat j) m' =
        .ok () (m''.record ⟨.load, a + UInt32.ofNat (j + k), 0⟩) := by
  -- The steps that are left, `k`, go down together with the budget, and what is known of
  -- the bytes is about the whole walk from `a`.
  induction k generalizing j m' n with
  | zero =>
      obtain ⟨n, rfl⟩ : ∃ n', n = n' + 1 := ⟨n - 1, by omega⟩
      rw [Nat.add_zero] at hzero ⊢
      have hload := h.load
      rw [hzero] at hload
      exact ⟨m', h, Action.bind_ok hload⟩
  | succ k ih =>
      obtain ⟨n, rfl⟩ : ∃ n', n = n' + 1 := ⟨n - 1, by omega⟩
      obtain ⟨m₁, hwrite, hnext⟩ := h.next
      have hsum : j + (k + 1) = j + 1 + k := by omega
      rw [hsum] at hzero hbefore ⊢
      obtain ⟨m₂, hwalked, hrun⟩ := ih (n := n) hnext hzero hbefore (by omega)
      refine ⟨m₂, hwalked, ?_⟩
      rw [writeStringFrom, Action.bind_ok h.load, if_neg (hbefore j (by omega)),
        Action.bind_ok hwrite, ← Address.add_ofNat_succ, hrun]

/-- A walk that never sees a zero uses up every budget. -/
theorem Walked.run_endless (h : m.Walked a j m') (hnone : ∀ i, m.ram.seen a i ≠ 0)
    (n : Nat) : ∃ m'', writeStringFrom n (a + UInt32.ofNat j) m' = .error .endless m'' := by
  induction n generalizing j m' with
  | zero => exact ⟨m', rfl⟩
  | succ n ih =>
      obtain ⟨m₁, hwrite, hnext⟩ := h.next
      obtain ⟨m₂, hrun⟩ := ih hnext
      refine ⟨m₂, ?_⟩
      rw [writeStringFrom, Action.bind_ok h.load, if_neg (hnone j), Action.bind_ok hwrite,
        ← Address.add_ofNat_succ, hrun]

theorem writesString_hasEnd (h : WritesString a m m') : m.ram.HasEnd a := by
  obtain ⟨n, hn⟩ := writesString_iff.mp h
  by_contra hno
  -- The budget that was enough would have been used up.
  obtain ⟨m'', hrun⟩ := (walked_zero m a).run_endless
    (fun i hi => hno (Ram.hasEnd_of_seen hi)) n
  rw [Address.add_ofNat_zero, hn] at hrun
  cases hrun

theorem exists_writesString (h : m.ram.HasEnd a) :
    ∃ k m', k < Address.space ∧ m.ram.seen a k = 0 ∧ (∀ i, i < k → m.ram.seen a i ≠ 0) ∧
      m.Walked a k m' ∧
      writeStringFrom Address.space a m =
        .ok () (m'.record ⟨.load, a + UInt32.ofNat k, 0⟩) := by
  obtain ⟨k, hk, hzero⟩ := Ram.exists_seen_zero h
  -- The walk stops at the first zero it sees, and there is one within a turn.
  have hexists : ∃ k, m.ram.seen a k = 0 := ⟨k, hzero⟩
  have hfirst : Nat.find hexists < Address.space :=
    Nat.lt_of_le_of_lt (Nat.find_min' hexists hzero) hk
  obtain ⟨m', hwalked, hrun⟩ := (walked_zero m a).run_ok (k := Nat.find hexists)
    (by rw [Nat.zero_add]; exact Nat.find_spec hexists)
    (by rw [Nat.zero_add]; exact fun i hi => Nat.find_min hexists hi) hfirst
  rw [Nat.zero_add, Address.add_ofNat_zero] at hrun
  rw [Nat.zero_add] at hwalked
  exact ⟨_, m', hfirst, Nat.find_spec hexists, fun i hi => Nat.find_min hexists hi,
    hwalked, hrun⟩

theorem printsLine_iff : PrintsLine a m m' ↔ printLineAt a m = .ok () m' := by
  constructor
  · rintro ⟨m₁, hwalk, hline⟩
    obtain ⟨k, m₂, -, -, -, -, hrun⟩ := exists_writesString (writesString_hasEnd hwalk)
    rw [(writesString_iff.mpr ⟨_, hrun⟩).unique hwalk] at hline
    rw [printLineAt, Action.bind_ok hrun, hline]
  · intro hprint
    rw [printLineAt] at hprint
    cases hrun : writeStringFrom Address.space a m with
    | error e m₁ =>
        rw [Action.bind_error hrun] at hprint
        cases hprint
    | ok u m₁ =>
        rw [Action.bind_ok hrun] at hprint
        exact ⟨m₁, writesString_iff.mpr ⟨_, hrun⟩, hprint⟩

/-- The bytes stored at the sink, in order. -/
def output (m : TracedRam) : List UInt8 :=
  m.accesses.filterMap fun x =>
    if x.kind = .store ∧ x.address = Register.sink.address then some x.byte else none

theorem Walked.output_eq (h : m.Walked a k m') :
    m'.output = m.output ++ (List.range k).map (m.ram.seen a) := by
  have hsteps : ∀ is : List Nat, (is.flatMap fun i =>
      [(⟨.load, a + UInt32.ofNat i, m.ram.seen a i⟩ : Access),
        ⟨.store, Register.sink.address, m.ram.seen a i⟩]).filterMap (fun x =>
      if x.kind = .store ∧ x.address = Register.sink.address then some x.byte else none) =
      is.map (m.ram.seen a) := by
    intro is
    induction is with
    | nil => rfl
    | cons i is ih => simp [ih]
  rw [output, h.accesses_eq, List.filterMap_append, stepAccesses, hsteps]
  rfl

/-- Printing a line from plain storage with any contents ends exactly if there is a zero
to stop at, and then a walk without a budget ends too, in the same storage. Only the sink
has changed, to a newline. The bytes stored at the sink are the ones seen up to the first
zero, and a newline. Each is what stands at its address, except at the sink if the walk
comes around to it. There it sees the byte that it has just stored, which is never a
zero. -/
theorem printLineAt_comes_around :
    (∀ contents : Address → UInt8, ∃ m : Ram, m.read = contents) ∧
    ∀ (m : TracedRam) (a : Address),
      ((∃ m', PrintsLine a m m') ↔
        (a = 0 ∧ m.ram.read 0 = 0) ∨ ∃ b, b ≠ 0 ∧ m.ram.read b = 0) ∧
      (∀ m', PrintsLine a m m' ↔ printLineAt a m = .ok () m') ∧
      ∀ m', PrintsLine a m m' →
        (∀ b, m'.ram.read b = if b = 0 then 10 else m.ram.read b) ∧
        ∃ k, m.ram.seen a k = 0 ∧ (∀ i, i < k → m.ram.seen a i ≠ 0) ∧
          m'.output = m.output ++ (List.range k).map (m.ram.seen a) ++ [10] ∧
          m'.accesses = m.accesses ++ stepAccesses m.ram a k ++
            [⟨.load, a + UInt32.ofNat k, 0⟩, ⟨.store, 0, 10⟩] ∧
          ∀ i, i < k → a + UInt32.ofNat (i + 1) = 0 →
            i + 1 < k ∧ m.ram.seen a (i + 1) = m.ram.seen a i ∧
              m.ram.seen a i = m.ram.read Address.last := by
  refine ⟨Ram.exists_read_eq, fun m a => ⟨⟨?_, fun hend => ?_⟩,
    fun m' => printsLine_iff, fun m' hprints => ?_⟩⟩
  · rintro ⟨m', m₁, hwalk, -⟩
    exact writesString_hasEnd hwalk
  · obtain ⟨k, m₁, -, -, -, -, hrun⟩ := exists_writesString (m := m) hend
    exact ⟨_, _, writesString_iff.mpr ⟨_, hrun⟩, rfl⟩
  · have hprint := printsLine_iff.mp hprints
    obtain ⟨m₀, hwalk, -⟩ := hprints
    obtain ⟨k, m₁, -, hzero, hbefore, hwalked, hrun⟩ :=
      exists_writesString (writesString_hasEnd hwalk)
    rw [printLineAt, Action.bind_ok hrun] at hprint
    cases hprint
    refine ⟨fun b => ?_, k, hzero, hbefore, ?_, ?_, fun i hi hwrap => ?_⟩
    · show (m₁.ram.write Register.sink.address newline).read b = _
      rw [Ram.read_write, hwalked.read_eq]
      show (if (0 : Address) = b then newline else if b = 0 ∧ k ≠ 0 then _ else _) = _
      by_cases hb : b = 0
      · rw [if_pos hb.symm, if_pos hb]
        rfl
      · rw [if_neg (Ne.symm hb), if_neg fun h => hb h.1, if_neg hb]
    · rw [← hwalked.output_eq, output, accesses_record]
      show ((m₁.record _).accesses ++ _).filterMap _ = _
      rw [accesses_record]
      simp [output, newline]
    · rw [accesses_record]
      show (m₁.record _).accesses ++ _ = _
      rw [accesses_record, hwalked.accesses_eq, List.append_assoc]
      rfl
    · -- A zero here would have been seen one step before.
      obtain ⟨hnow, hjust⟩ := Ram.seen_wrapped (m := m.ram) hwrap
      have hsame := hnow.trans hjust.symm
      refine ⟨Nat.lt_of_le_of_ne hi fun hk => ?_, hsame, hjust⟩
      rw [hk, hzero] at hsame
      exact hbefore i hi hsame.symm

/-- A walk from the last address misses the zero at the sink, and stops at the next one.
If there is no other, a walk that starts above the sink does not end. -/
theorem printLineAt_comes_around_missed_zero :
    let m : TracedRam := { ram := (({} : Ram).write Address.last 65).write 1 66 }
    (m.ram.read 0 = 0 ∧ ∃ m', PrintsLine Address.last m m' ∧ m'.ram.read 0 = 10 ∧
      m'.output = [65, 65, 66, 10]) ∧
    ∃ m₀ : TracedRam, m₀.ram.read 0 = 0 ∧ ∀ m', ¬ PrintsLine 5 m₀ m' := by
  intro m
  obtain ⟨hany, hprint⟩ := printLineAt_comes_around
  refine ⟨?_, ?_⟩
  · have hread : ∀ b, m.ram.read b =
        if (1 : Address) = b then 66 else if Address.last = b then 65 else 0 := by
      intro b
      rw [Ram.read_write, Ram.read_write, Ram.read_empty]
    have h₀ : m.ram.seen Address.last 0 = 65 := (if_neg (by decide)).trans (hread _)
    have h₁ : m.ram.seen Address.last 1 = 65 := (if_pos (by decide)).trans (hread _)
    have h₂ : m.ram.seen Address.last 2 = 66 := (if_neg (by decide)).trans (hread _)
    have h₃ : m.ram.seen Address.last 3 = 0 := (if_neg (by decide)).trans (hread _)
    obtain ⟨hends, -, hdone⟩ := hprint m Address.last
    obtain ⟨m', hm'⟩ := hends.mpr (.inr ⟨2, by decide, hread 2⟩)
    obtain ⟨hfinal, k, hzero, hbefore, houtput, -⟩ := hdone m' hm'
    have hk : k = 3 := by
      by_contra hne
      obtain rfl | rfl | rfl | hlt : k = 0 ∨ k = 1 ∨ k = 2 ∨ 3 < k := by omega
      · exact absurd (h₀.symm.trans hzero) (by decide)
      · exact absurd (h₁.symm.trans hzero) (by decide)
      · exact absurd (h₂.symm.trans hzero) (by decide)
      · exact hbefore 3 hlt h₃
    refine ⟨hread 0, m', hm', hfinal 0, ?_⟩
    rw [houtput, hk]
    show [m.ram.seen Address.last 0, m.ram.seen Address.last 1, m.ram.seen Address.last 2,
      10] = _
    rw [h₀, h₁, h₂]
  · obtain ⟨ram, hram⟩ := hany fun b => if b = 0 then 0 else 1
    refine ⟨{ ram }, by rw [hram]; rfl, fun m' hm' => ?_⟩
    rcases (hprint { ram } 5).1.mp ⟨m', hm'⟩ with ⟨h, -⟩ | ⟨b, hb, hzero⟩
    · exact absurd h (by decide)
    · have hone : ram.read b = 1 := by
        rw [hram]
        exact if_neg hb
      exact absurd (hone.symm.trans hzero) (by decide)

end TracedRam

end FlatMachine
