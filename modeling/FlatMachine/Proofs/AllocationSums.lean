import FlatMachine.Proofs.Exhaustion
import Mathlib.Data.List.Induction

/-!
# Where a block starts is a sum

Ask a fresh heap for blocks, one after the other. The cursor adds with saturation, a
refusal leaves it in place, and the first call puts it to use. In spite of all this a
block starts where plain addition puts it: at the start of the heap plus the sizes
of all requests made before, and it is granted exactly if that lies in memory. So
the sizes alone tell the whole run.

The cursor itself is not that sum, because a refused request does not move it and a
long block is cut at the last address. But both happen only past the end of memory,
and below the end the two agree, which is what `Guest.Tallies` keeps.
-/

namespace FlatMachine

namespace HeapCall

/-- The bytes that a call asks for. -/
def asked : HeapCall → Nat
  | reserve size => size.toNat
  | allocate size => size.toNat
  | free _ => 0
  | remaining => 0

/-- The bytes that calls ask for together, granted or not. -/
def total : List HeapCall → Nat
  | [] => 0
  | c :: calls => c.asked + total calls

theorem total_concat (calls : List HeapCall) (c : HeapCall) :
    total (calls ++ [c]) = total calls + c.asked := by
  induction calls with
  | nil => simp [total]
  | cons d calls ih => simp [total, ih, Nat.add_assoc]

end HeapCall

namespace Guest

/-- A guest that has asked for some bytes since its machine was `m`: below the end of
memory, its heap is where the sum says, and its machine has done nothing but
complain. -/
structure Tallies (g : Guest Machine) (m : Machine) (stackStart memEnd : Address)
    (asked : Nat) (complained : Bool) : Prop where
  bus : m.Complained complained g.bus
  position : min (g.heap.positionFrom (stackStart.saturatingAdd 4)).toNat memEnd.toNat =
    min (stackStart.toNat + 4 + asked) memEnd.toNat

namespace Tallies

variable {m : Machine} {stackStart memEnd : Address} {g : Guest Machine} {asked : Nat}
  {complained : Bool}

theorem fresh (hm : m.Ready stackStart memEnd) :
    Tallies ⟨m, {}⟩ m stackStart memEnd 0 false := by
  have hsits := Sits.fresh hm
  refine ⟨.never, ?_⟩
  rw [hsits.position_eq, hsits.toNat_ofNat, Nat.add_zero]

section Calls

variable (hm : m.Ready stackStart memEnd)
  (hg : g.Tallies m stackStart memEnd asked complained)
include hm hg

theorem remaining_run : ∃ left, remaining g = .ok left g ∧
    left.toNat = memEnd.toNat - (stackStart.toNat + 4 + asked) := by
  have hposition := hg.position
  refine ⟨_, remaining_shown (hg.bus.shows hm.shows), ?_⟩
  rw [Address.toNat_distanceFrom]
  omega

theorem reserve_granted (size : UInt32)
    (hlt : stackStart.toNat + 4 + asked < memEnd.toNat) :
    ∃ a g', reserve size g = .ok (some a) g' ∧ a.toNat = stackStart.toNat + 4 + asked ∧
      g'.Tallies m stackStart memEnd (asked + size.toNat) complained := by
  have hposition := hg.position
  have hbelow : g.heap.positionFrom (stackStart.saturatingAdd 4) < memEnd := by
    rw [UInt32.lt_iff_toNat_lt]
    omega
  refine ⟨_, _, Guest.reserve_granted (hg.bus.shows hm.shows) size hbelow, by omega, hg.bus, ?_⟩
  -- Saturation cuts the sum at the last address, which is past the end of memory.
  have hlast := Address.toNat_lt_space memEnd
  rw [Heap.positionFrom_moved (g.heap.positionFrom_ne_null stackStart),
    Address.toNat_saturatingAdd]
  omega

theorem reserve_refused (size : UInt32)
    (hge : memEnd.toNat ≤ stackStart.toNat + 4 + asked) :
    ∃ g', reserve size g = .ok none g' ∧
      g'.Tallies m stackStart memEnd (asked + size.toNat) complained := by
  have hposition := hg.position
  have hpast : ¬ g.heap.positionFrom (stackStart.saturatingAdd 4) < memEnd := by
    rw [UInt32.lt_iff_toNat_lt]
    omega
  refine ⟨_, Guest.reserve_refused (hg.bus.shows hm.shows) size hpast, hg.bus, ?_⟩
  rw [Heap.positionFrom_used (g.heap.positionFrom_ne_null stackStart)]
  omega

theorem allocate_granted (size : UInt32)
    (hlt : stackStart.toNat + 4 + asked < memEnd.toNat) :
    ∃ a g', allocate size g = .ok (.ok a) g' ∧ a.toNat = stackStart.toNat + 4 + asked ∧
      g'.Tallies m stackStart memEnd (asked + size.toNat) complained := by
  obtain ⟨a, g', hrun, hstart, hg'⟩ := hg.reserve_granted hm size hlt
  exact ⟨a, g', allocate_of_granted hrun, hstart, hg'⟩

theorem allocate_refused (size : UInt32)
    (hge : memEnd.toNat ≤ stackStart.toNat + 4 + asked) :
    ∃ g', allocate size g = .ok (.error {}) g' ∧
      g'.Tallies m stackStart memEnd (asked + size.toNat) true := by
  obtain ⟨g', hrun, hg'⟩ := hg.reserve_refused hm size hge
  have hsize := hm.size_ge
  obtain ⟨bus, hhalt, hbus⟩ := hg'.bus.again hm.running (by omega)
  exact ⟨⟨bus, g'.heap⟩, allocate_of_refused hrun hhalt, hbus, hg'.position⟩

theorem allocate_refused_iff (size : UInt32) :
    (allocate size).outcome g = .ok (.error {}) ↔
      memEnd.toNat ≤ stackStart.toNat + 4 + asked := by
  rcases Nat.lt_or_ge (stackStart.toNat + 4 + asked) memEnd.toNat with hlt | hge
  · obtain ⟨a, g', hrun, -⟩ := hg.allocate_granted hm size hlt
    simp [Action.outcome_ok hrun, hlt]
  · obtain ⟨g', hrun, -⟩ := hg.allocate_refused hm size hge
    simp [Action.outcome_ok hrun, hge]

theorem step (c : HeapCall) :
    ∃ b, (c.run.final g).Tallies m stackStart memEnd (asked + c.asked) b ∧
      (b = true ↔ complained = true ∨
        ∃ size, c = .allocate size ∧ memEnd.toNat ≤ stackStart.toNat + 4 + asked) := by
  cases c with
  | reserve size =>
      rcases Nat.lt_or_ge (stackStart.toNat + 4 + asked) memEnd.toNat with hlt | hge
      · obtain ⟨a, g', hrun, -, hg'⟩ := hg.reserve_granted hm size hlt
        rw [HeapCall.run, Action.final_bind_pure, Action.final_ok hrun]
        exact ⟨complained, hg', by simp⟩
      · obtain ⟨g', hrun, hg'⟩ := hg.reserve_refused hm size hge
        rw [HeapCall.run, Action.final_bind_pure, Action.final_ok hrun]
        exact ⟨complained, hg', by simp⟩
  | allocate size =>
      rcases Nat.lt_or_ge (stackStart.toNat + 4 + asked) memEnd.toNat with hlt | hge
      · obtain ⟨a, g', hrun, -, hg'⟩ := hg.allocate_granted hm size hlt
        rw [HeapCall.run, Action.final_bind_pure, Action.final_ok hrun]
        exact ⟨complained, hg', by simp [Nat.not_le.mpr hlt]⟩
      · obtain ⟨g', hrun, hg'⟩ := hg.allocate_refused hm size hge
        rw [HeapCall.run, Action.final_bind_pure, Action.final_ok hrun]
        exact ⟨true, hg', by simp [hge]⟩
  | free a => exact ⟨complained, hg, by simp⟩
  | remaining =>
      obtain ⟨left, hrun, -⟩ := hg.remaining_run hm
      rw [HeapCall.run, Action.final_bind_pure, Action.final_ok hrun]
      exact ⟨complained, hg, by simp⟩

end Calls

/-- By induction on the calls from the last one back, so that what was asked before a
call is the sum over the others. -/
theorem after (hm : m.Ready stackStart memEnd) (calls : List HeapCall) :
    ∃ b, (Session.after HeapCall.run calls ⟨m, {}⟩).Tallies m stackStart memEnd
        (HeapCall.total calls) b ∧
      (b = true ↔ ∃ before size, before ++ [.allocate size] <+: calls ∧
        memEnd.toNat ≤ stackStart.toNat + 4 + HeapCall.total before) := by
  induction calls using List.reverseRecOn with
  | nil => exact ⟨false, fresh hm, by simp⟩
  | append_singleton calls c ih =>
      obtain ⟨b, hg, hb⟩ := ih
      obtain ⟨b', hg', hb'⟩ := hg.step hm c
      rw [Session.after_append, Session.after_cons, Session.after_nil, HeapCall.total_concat]
      refine ⟨b', hg', hb'.trans ?_⟩
      rw [hb]
      constructor
      · rintro (⟨before, size, hprior, hge⟩ | ⟨size, rfl, hge⟩)
        · exact ⟨before, size, hprior.trans (List.prefix_append _ _), hge⟩
        · exact ⟨calls, size, List.prefix_rfl, hge⟩
      · rintro ⟨before, size, hprior, hge⟩
        rcases List.prefix_concat_iff.mp hprior with hlast | hprior
        · obtain ⟨rfl, hc⟩ := List.append_inj' hlast rfl
          cases hc
          exact .inr ⟨size, rfl, hge⟩
        · exact .inl ⟨before, size, hprior, hge⟩

end Tallies

/-- A fresh machine and any calls on a fresh heap. What is left is the room there was,
less all that was asked for. A further request is granted if that is not nothing, at
the sum of all sizes so far past the start of the heap, and refused if it is. The
console has one complaint if a request made with `allocate` was refused, and nothing
new if none was. -/
theorem requests_sum_up {m : Machine} (hm : m.Fresh) (calls : List HeapCall) :
    let after := fun calls => Session.after HeapCall.run calls (⟨m, {}⟩ : Guest Machine)
    ∃ stackStart memEnd room, m.stackStart = .ok stackStart ∧ m.memEnd = .ok memEnd ∧
      remaining ⟨m, {}⟩ = .ok room (⟨m, {}⟩ : Guest Machine) ∧
      room.toNat = memEnd.toNat - (stackStart.toNat + 4) ∧
      (∃ left, remaining (after calls) = .ok left (after calls) ∧
        left.toNat = room.toNat - HeapCall.total calls) ∧
      (∀ size, HeapCall.total calls < room.toNat → ∃ a,
        (reserve size).outcome (after calls) = .ok (some a) ∧
        (allocate size).outcome (after calls) = .ok (.ok a) ∧
        a.toNat = stackStart.toNat + 4 + HeapCall.total calls ∧ a < memEnd ∧
        a.inIoSegment = false) ∧
      (∀ size, room.toNat ≤ HeapCall.total calls →
        (reserve size).outcome (after calls) = .ok none ∧
        (allocate size).outcome (after calls) = .ok (.error {})) ∧
      ((∃ before size, before ++ [.allocate size] <+: calls ∧
          (allocate size).outcome (after before) = .ok (.error {})) →
        (after calls).bus.console.toList =
          m.console.toList ++ (outOfMemory ++ [newline])) ∧
      ((∀ before size, before ++ [.allocate size] <+: calls →
          (allocate size).outcome (after before) ≠ .ok (.error {})) →
        (after calls).bus.console.toList = m.console.toList) := by
  intro after
  obtain ⟨stackStart, memEnd, hready⟩ := hm.ready
  obtain ⟨room, hroom, hroomNat⟩ := (Tallies.fresh hready).remaining_run hready
  obtain ⟨b, hg, hb⟩ := Tallies.after hready calls
  rw [Nat.add_zero] at hroomNat
  have hrefused : (∃ before size, before ++ [.allocate size] <+: calls ∧
      (allocate size).outcome (after before) = .ok (.error {})) ↔ b = true := by
    rw [hb]
    refine exists_congr fun before => exists_congr fun size => and_congr_right fun _ => ?_
    obtain ⟨b', hg', -⟩ := Tallies.after hready before
    exact hg'.allocate_refused_iff hready size
  refine ⟨stackStart, memEnd, room, hready.shows.stackStart_eq, hready.shows.memEnd_eq, hroom,
    hroomNat, ?_, fun size hlt => ?_, fun size hge => ?_, fun h => ?_, fun h => ?_⟩
  · obtain ⟨left, hleft, hleftNat⟩ := hg.remaining_run hready
    exact ⟨left, hleft, by rw [hleftNat, hroomNat, Nat.sub_sub]⟩
  · obtain ⟨a, g', hreserve, hstart, -⟩ := hg.reserve_granted hready size (by omega)
    have hio := hready.io_le
    refine ⟨a, Action.outcome_ok hreserve, Action.outcome_ok (allocate_of_granted hreserve), hstart,
      UInt32.lt_iff_toNat_lt.mpr (by omega), decide_eq_false (UInt32.not_lt.mpr ?_)⟩
    exact UInt32.le_iff_toNat_le.mpr (show 256 ≤ a.toNat by omega)
  · obtain ⟨g', hreserve, -⟩ := hg.reserve_refused hready size (by omega)
    obtain ⟨g'', hallocate, -⟩ := hg.allocate_refused hready size (by omega)
    exact ⟨Action.outcome_ok hreserve, Action.outcome_ok hallocate⟩
  · rw [hg.bus.console_eq, hrefused.mp h]
    rfl
  · have hnone : ¬ b = true := fun hb => by
      obtain ⟨before, size, hprior, houtcome⟩ := hrefused.mpr hb
      exact h before size hprior houtcome
    rw [hg.bus.console_eq, if_neg hnone, List.append_nil]

/-- Four bytes of room: nothing, three bytes and all that a word can count are granted.
The sum has then passed the end, so that even a block of no bytes is refused, and of
two complaints one is heard. -/
theorem requests_sum_up_overshooting :
    let m := Machine.laidOut ⟨264, 256, 0⟩
    let before : List HeapCall := [.allocate 0, .reserve 3]
    let full := before ++ [.allocate 0xFFFFFFFF, .free 260]
    let calls := full ++ [.allocate 0, .reserve 7, .allocate 1]
    let after := fun calls => Session.after HeapCall.run calls (⟨m, {}⟩ : Guest Machine)
    m.Fresh ∧
      (∃ left, remaining (after before) = .ok left (after before) ∧ left.toNat = 1) ∧
      (∃ a, (allocate 0xFFFFFFFF).outcome (after before) = .ok (.ok a) ∧ a.toNat = 263) ∧
      (allocate 0).outcome (after full) = .ok (.error {}) ∧
      (after calls).bus.console.toList = outOfMemory ++ [newline] := by
  intro m before full calls after
  have hvalid : (⟨264, 256, 0⟩ : Layout).Valid := ⟨by decide, by decide, by decide⟩
  have hfresh : m.Fresh := .ofLayout (Machine.ofLayout_of_valid hvalid)
  have hshows : m.Shows 256 264 := (Machine.laidOut_ready hvalid).shows
  have hconsole : m.console.toList = [] := rfl
  obtain ⟨_, _, room, hstack, hend, -, hroom, ⟨left, hleft, hleftNat⟩, hgrant, -⟩ :=
    requests_sum_up hfresh before
  cases hstack.symm.trans hshows.stackStart_eq
  cases hend.symm.trans hshows.memEnd_eq
  obtain ⟨a, -, hallocate, hstart, -⟩ := hgrant 0xFFFFFFFF (by rw [hroom]; decide)
  obtain ⟨_, _, room', hstack, hend, -, hroom', -, -, hrefuse, -⟩ := requests_sum_up hfresh full
  cases hstack.symm.trans hshows.stackStart_eq
  cases hend.symm.trans hshows.memEnd_eq
  obtain ⟨-, hrefused⟩ := hrefuse 0 (by rw [hroom']; decide)
  obtain ⟨_, _, _, -, -, -, -, -, -, -, hheard, -⟩ := requests_sum_up hfresh calls
  refine ⟨hfresh, ⟨left, hleft, by rw [hleftNat, hroom]; decide⟩, ⟨a, hallocate, hstart⟩,
    hrefused, ?_⟩
  rw [hheard ⟨full, 0, ⟨[.reserve 7, .allocate 1], rfl⟩, hrefused⟩, hconsole, List.nil_append]

end Guest

end FlatMachine
