import FlatMachine.Proofs.AlignedRefinement
import FlatMachine.Proofs.Exhaustion

/-!
# Where aligned blocks start

The plain heap grants a block only if it starts below the end of memory. The aligned
heap asks it for a padded block and then rounds the start up, and the end of memory
is not looked at again. So the test is made at the cursor and the answer is given at
the next aligned address, which may be the end of memory or lie past it: a request
that finds no aligned address left in memory is not treated as exhaustion. It is
answered with an address outside, with no complaint and no halt.

This happens at most once in a run, because the padded block covers the address that
was given, and the cursor has then passed the end of memory too.
-/

namespace FlatMachine

theorem Request.align_le {r : Request} {n : UInt32} (h : r.padded? = some n) :
    r.align ≤ 2 ^ 31 := by
  obtain ⟨⟨k, -, halign⟩, -⟩ := r.valid
  rw [Nat.one_shiftLeft] at halign
  rw [padded?] at h
  split at h
  · next hfits =>
      have hk : k < 32 :=
        (Nat.pow_lt_pow_iff_right (a := 2) (by decide)).mp (halign ▸ hfits.1)
      rw [halign]
      exact Nat.pow_le_pow_right (by decide) (by omega)
  · cases h

namespace Allocator

/-- An allocator between two requests, on a machine that was `m` and has done nothing
since but complain. Its next block starts no lower than `low`. -/
structure Idle (s : Allocator Machine) (m : Machine) (stackStart : Address) (low : Nat) :
    Prop where
  free : s.inUse = false
  bus : ∃ complained, m.Complained complained s.bus
  low_le : low ≤ (s.heap.positionFrom (stackStart.saturatingAdd 4)).toNat

namespace Idle

variable {m : Machine} {stackStart memEnd c p : Address} {low : Nat} {s : Allocator Machine}
  {r : Request} {n : UInt32}

theorem fresh (hm : m.Ready stackStart memEnd) :
    Idle ⟨m, {}, false⟩ m stackStart (stackStart.toNat + 4) := by
  have hsits := Guest.Sits.fresh hm
  refine ⟨rfl, ⟨false, .never⟩, Nat.le_of_eq ?_⟩
  rw [hsits.position_eq, hsits.toNat_ofNat]

section Requests

variable (hm : m.Ready stackStart memEnd) (hs : s.Idle m stackStart low)
include hm hs

theorem alloc_exhausted (hc : s.heap.positionFrom (stackStart.saturatingAdd 4) = c)
    (hpad : r.padded? = some n) (hge : memEnd ≤ c) :
    ∃ bus, alloc r s = .ok none ⟨bus, ⟨c⟩, false⟩ ∧ m.Complained true bus := by
  obtain ⟨bus, heap, inUse⟩ := s
  obtain ⟨rfl, ⟨b, hbus⟩, -⟩ := hs
  subst hc
  have hrefuse := Guest.reserve_refused (g := ⟨bus, heap⟩) (hbus.shows hm.shows) n
    (UInt32.not_lt.mpr hge)
  have hsize := hm.size_ge
  obtain ⟨bus', hhalt, hbus'⟩ := hbus.again hm.running (by omega)
  have halloc := alloc_of_refused hpad hrefuse
  simp only [hhalt] at halloc
  exact ⟨bus', halloc, hbus'⟩

theorem alloc_rounded (hc : s.heap.positionFrom (stackStart.saturatingAdd 4) = c)
    (hpad : r.padded? = some n) (hlt : c < memEnd) :
    ∃ p : Address, IsLeast {q : Nat | r.align ∣ q ∧ c.toNat ≤ q} p.toNat ∧
      p.toNat ≤ (c.saturatingAdd n).toNat ∧
      alloc r s = .ok (some p) ⟨s.bus, ⟨c.saturatingAdd n⟩, false⟩ := by
  obtain ⟨bus, heap, inUse⟩ := s
  obtain ⟨rfl, ⟨b, hbus⟩, -⟩ := hs
  have hgrant := Guest.reserve_granted (g := ⟨bus, heap⟩) (hbus.shows hm.shows) n
    (hc.symm ▸ hlt)
  obtain ⟨p, hleast, hup, heq⟩ := Address.alignUp?_eq c r.align_pos
  -- Memory is so small that rounding up does not leave the address space.
  have hp : p < 2 ^ 32 := by
    have halign := Request.align_le hpad
    have hsize := hm.size_le
    have hbelow := UInt32.lt_iff_toNat_lt.mp hlt
    omega
  have halloc := alloc_of_granted hpad hgrant
  rw [hc, heq, if_pos hp] at halloc
  have hnat : (UInt32.ofNat p).toNat = p := Address.toNat_ofNat_of_lt hp
  have hcovered : p ≤ (c.saturatingAdd n).toNat := by
    have hpadded := Request.toNat_padded hpad
    have hspace : Address.space = 2 ^ 32 := rfl
    rw [Address.toNat_saturatingAdd]
    omega
  exact ⟨UInt32.ofNat p, by rwa [hnat], by rwa [hnat], halloc⟩

theorem step (r : Request) : ((alloc r).final s).Idle m stackStart low := by
  cases hpad : r.padded? with
  | none =>
      rw [Action.final_ok (alloc_too_large hpad)]
      exact hs
  | some n =>
      have hlow := hs.low_le
      have hused := s.heap.positionFrom_ne_null stackStart
      by_cases hlt : s.heap.positionFrom (stackStart.saturatingAdd 4) < memEnd
      · obtain ⟨p, -, -, halloc⟩ := hs.alloc_rounded hm rfl hpad hlt
        rw [Action.final_ok halloc]
        refine ⟨rfl, hs.bus, ?_⟩
        rw [Heap.positionFrom_moved hused]
        exact Nat.le_trans hlow (Address.le_saturatingAdd _ n)
      · obtain ⟨bus, halloc, hbus⟩ := hs.alloc_exhausted hm rfl hpad (UInt32.not_lt.mp hlt)
        rw [Action.final_ok halloc]
        refine ⟨rfl, ⟨true, hbus⟩, ?_⟩
        rwa [Heap.positionFrom_used hused]

theorem after (rs : List Request) : (Session.after alloc rs s).Idle m stackStart low :=
  Session.after_keeps (P := fun s => Idle s m stackStart low)
    (fun r _ _ hs => hs.step hm r) hs

/-- The padded block covers the address that is given, so the cursor ends up past it. -/
theorem step_past (hanswer : (alloc r).outcome s = .ok (some p)) :
    ((alloc r).final s).Idle m stackStart p.toNat := by
  cases hpad : r.padded? with
  | none =>
      rw [Action.outcome_ok (alloc_too_large hpad)] at hanswer
      cases hanswer
  | some n =>
      by_cases hlt : s.heap.positionFrom (stackStart.saturatingAdd 4) < memEnd
      · obtain ⟨p', -, hcovered, halloc⟩ := hs.alloc_rounded hm rfl hpad hlt
        rw [Action.outcome_ok halloc] at hanswer
        cases hanswer
        rw [Action.final_ok halloc]
        refine ⟨rfl, hs.bus, ?_⟩
        rwa [Heap.positionFrom_moved (s.heap.positionFrom_ne_null stackStart)]
      · obtain ⟨bus, halloc, -⟩ := hs.alloc_exhausted hm rfl hpad (UInt32.not_lt.mp hlt)
        rw [Action.outcome_ok halloc] at hanswer
        cases hanswer

end Requests

end Idle

/-- Any requests on a fresh machine, and one more. If it is too large for the address
space the answer is null and nothing happens. If the cursor has reached the end of
memory, as it has once an address outside was given, the answer is null, and the machine
is halted and has complained once. Else the answer is the next aligned address and the
machine is not touched. That address lies in memory exactly if some aligned address is
left between the cursor and the end. -/
theorem alloc_starts {m : Machine} (hm : m.Fresh) (before : List Request) (r : Request) :
    let after := fun rs => Session.after alloc rs (⟨m, {}, false⟩ : Allocator Machine)
    let s := after before
    ∃ stackStart memEnd c, m.stackStart = .ok stackStart ∧ m.memEnd = .ok memEnd ∧
      Guest.position ⟨s.bus, s.heap⟩ = .ok c (⟨s.bus, s.heap⟩ : Guest Machine) ∧
      stackStart.toNat + 4 ≤ c.toNat ∧
      (∀ earlier r' p, earlier ++ [r'] <+: before →
        (alloc r').outcome (after earlier) = .ok (some p) → memEnd ≤ p → memEnd ≤ c) ∧
      (r.padded? = none → alloc r s = .ok none s) ∧
      (∀ n, r.padded? = some n → memEnd ≤ c → ∃ s', alloc r s = .ok none s' ∧
        s'.bus.status = .halted ∧
        s'.bus.console.toList = m.console.toList ++ (outOfMemory ++ [newline])) ∧
      (∀ n, r.padded? = some n → c < memEnd → ∃ (p : Address) (s' : Allocator Machine),
        IsLeast {q : Nat | r.align ∣ q ∧ c.toNat ≤ q} p.toNat ∧
        alloc r s = .ok (some p) s' ∧ s'.bus = s.bus ∧
        (p < memEnd ↔ ∃ q, r.align ∣ q ∧ c.toNat ≤ q ∧ q < memEnd.toNat)) := by
  intro after s
  obtain ⟨stackStart, memEnd, hready⟩ := hm.ready
  have hidle : ∀ rs, (after rs).Idle m stackStart (stackStart.toNat + 4) :=
    (Idle.fresh hready).after hready
  have hs := hidle before
  obtain ⟨b, hbus⟩ := hs.bus
  refine ⟨stackStart, memEnd, s.heap.positionFrom (stackStart.saturatingAdd 4),
    hready.shows.stackStart_eq, hready.shows.memEnd_eq,
    Guest.position_shown (hbus.shows hready.shows), hs.low_le, ?_, alloc_too_large,
    fun n hpad hge => ?_, fun n hpad hlt => ?_⟩
  · rintro earlier r' p ⟨later, hsplit⟩ hanswer hp
    have hpast := ((hidle earlier).step_past hready hanswer).after hready later
    have hlast : s = Session.after alloc later ((alloc r').final (after earlier)) := by
      simp only [s, after, ← hsplit, Session.after_append, Session.after_cons, Session.after_nil]
    rw [← hlast] at hpast
    exact UInt32.le_iff_toNat_le.mpr (Nat.le_trans (UInt32.le_iff_toNat_le.mp hp) hpast.low_le)
  · obtain ⟨bus, halloc, hbus⟩ := hs.alloc_exhausted hready rfl hpad hge
    exact ⟨_, halloc, hbus.status_eq hready.running, hbus.console_eq⟩
  · obtain ⟨p, hleast, -, halloc⟩ := hs.alloc_rounded hready rfl hpad hlt
    refine ⟨p, _, hleast, halloc, rfl, fun hp => ?_, ?_⟩
    · exact ⟨p.toNat, hleast.1.1, hleast.1.2, UInt32.lt_iff_toNat_lt.mp hp⟩
    · rintro ⟨q, hdvd, hle, hq⟩
      exact UInt32.lt_iff_toNat_lt.mpr (Nat.lt_of_le_of_lt (hleast.2 ⟨hdvd, hle⟩) hq)

/-- With four bytes of room, an alignment of four gets them and one of eight gets the end
of memory. What is asked for after that is refused. -/
theorem alloc_starts_brim :
    let m := Machine.laidOut ⟨264, 256, 0⟩
    let four : Request := ⟨1, 4, by decide⟩
    let eight : Request := ⟨1, 8, by decide⟩
    let after := fun rs => Session.after alloc rs (⟨m, {}, false⟩ : Allocator Machine)
    m.Fresh ∧ m.memEnd = .ok 264 ∧
      (∃ p s', alloc four (after []) = .ok (some p) s' ∧ p < 264) ∧
      (∃ p s', alloc eight (after []) = .ok (some p) s' ∧ 264 ≤ p ∧ s'.bus = m) ∧
      ∃ s', alloc four (after [eight]) = .ok none s' ∧ s'.bus.status = .halted := by
  intro m four eight after
  have hvalid : (⟨264, 256, 0⟩ : Layout).Valid := ⟨by decide, by decide, by decide⟩
  have hfresh : m.Fresh := .ofLayout (Machine.ofLayout_of_valid hvalid)
  have hshows : m.Shows 256 264 := (Machine.laidOut_ready hvalid).shows
  obtain ⟨_, _, _, hstack, hend, hpos, -, -, -, -, hfour⟩ := alloc_starts hfresh [] four
  cases hstack.symm.trans hshows.stackStart_eq
  cases hend.symm.trans hshows.memEnd_eq
  cases hpos.symm.trans (Guest.position_shown hshows)
  obtain ⟨p, s₁, -, halloc, -, hin⟩ := hfour 4 (by decide) (by decide)
  obtain ⟨_, _, _, hstack, hend, hpos, -, -, -, -, height⟩ := alloc_starts hfresh [] eight
  cases hstack.symm.trans hshows.stackStart_eq
  cases hend.symm.trans hshows.memEnd_eq
  cases hpos.symm.trans (Guest.position_shown hshows)
  obtain ⟨p', s₂, hleast, halloc', hbus, -⟩ := height 8 (by decide) (by decide)
  have hout : 264 ≤ p' := by
    obtain ⟨⟨k, hk⟩, hle⟩ := hleast.1
    have hge : 260 ≤ p'.toNat := hle
    have height : p'.toNat = 8 * k := hk
    exact UInt32.le_iff_toNat_le.mpr (show 264 ≤ p'.toNat by omega)
  obtain ⟨_, _, _, -, hend, -, -, hpast, -, hrefuse, -⟩ := alloc_starts hfresh [eight] four
  cases hend.symm.trans hshows.memEnd_eq
  obtain ⟨s₃, hnone, hhalted, -⟩ := hrefuse 4 (by decide)
    (hpast [] eight p' List.prefix_rfl (Action.outcome_ok halloc') hout)
  exact ⟨hfresh, hshows.memEnd_eq,
    ⟨p, s₁, halloc, hin.mpr ⟨260, by decide, by decide, by decide⟩⟩,
    ⟨p', s₂, halloc', hout, hbus⟩, s₃, hnone, hhalted⟩

/-- Not every address that is given lies in memory: on the smallest memory with room for
four bytes, the first aligned address is the end of memory, and a request for one byte
gets it from a machine that runs on in silence. -/
theorem alloc_start_at_end :
    let m := Machine.laidOut ⟨264, 256, 0⟩
    let r : Request := ⟨1, 8, by decide⟩
    m.Fresh ∧ m.memEnd = .ok 264 ∧ m.status = .running ∧ m.console = #[] ∧
      alloc r ⟨m, {}, false⟩ = .ok (some 264) ⟨m, ⟨268⟩, false⟩ := by
  intro m r
  have hvalid : (⟨264, 256, 0⟩ : Layout).Valid := ⟨by decide, by decide, by decide⟩
  have hready : m.Ready 256 264 := Machine.laidOut_ready hvalid
  have hgrant : Guest.reserve 8 ⟨m, {}⟩ = .ok (some 260) (⟨m, ⟨268⟩⟩ : Guest Machine) := by
    rw [(Guest.Sits.fresh hready).reserve_run 8, if_pos (by decide)]
    congr 1
  have hpad : r.padded? = some 8 := by decide
  have hup : Address.alignUp? 260 r.align = some 264 := by decide
  refine ⟨.ofLayout (Machine.ofLayout_of_valid hvalid), hready.shows.memEnd_eq, rfl, rfl, ?_⟩
  rw [alloc_of_granted hpad hgrant, hup]

end Allocator

end FlatMachine
