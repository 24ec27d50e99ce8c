import FlatMachine.CommandLine.Program
import FlatMachine.Proofs.DumpText
import FlatMachine.Proofs.LayoutMachine
import FlatMachine.Proofs.OutputText

/-!
# The program from its arguments to its exit

Nothing that a user can write makes the program fault. The one place where that is not
plain is the dump at the end, whose range is taken from a register in the guest's memory
and from a cursor that can be null, or past the end of memory, or stuck at the last
address. It is never empty and never too long when it is asked for: a script leaves the
registers alone, and its cursor is null or above the start of the stack.

So the machine that the options ask for is either refused, which is the one way to
fail, or it runs the script and everything is shown. What is shown is told without the
program: the machine is the one that the image or the sizes describe, the script does to
it what its two courses say, and the text is read back piece by piece.
-/

namespace FlatMachine

namespace CommandLine

variable {read : String → Except ReadError (List UInt8)} {o o' : Options}

/-! ## The machine that is asked for -/

/-- The layout that the options ask for if they name no image. -/
def Options.layout (o : Options) : Layout :=
  ⟨o.memorySize.getD 0x10000, 256, o.stackSize.getD 1024⟩

/-- The script that the options ask for. -/
def Options.script (o : Options) : Script :=
  ⟨o.messages, o.allocations⟩

/-- The machine that the options are given: the one that the image describes, or a blank
one. -/
inductive Supplied (read : String → Except ReadError (List UInt8)) (o : Options)
    (m : Machine) : Prop
  | booted {path : String} {image : List UInt8} (hpath : o.image = some path)
      (hread : read path = .ok image) (hboot : Machine.boot image = .ok (.ok m))
      (hdescribes : Image.Describes image m)
  | blank (hnone : o.image = none) (hlayout : Machine.ofLayout o.layout = .ok (.ok m))
      (hdescribes : o.layout.Describes m)

/-- The options that are given no machine. -/
inductive Refused (read : String → Except ReadError (List UInt8)) (o : Options) : Prop
  | unreadable {path : String} {e : ReadError} (hpath : o.image = some path)
      (hread : read path = .error e)
  | unbootable {path : String} {image : List UInt8} (hpath : o.image = some path)
      (hread : read path = .ok image) (himage : ¬ Image.WellFormed image)
  | unfit (hnone : o.image = none) (hlayout : ¬ o.layout.Valid)

theorem Supplied.fresh {m : Machine} (h : Supplied read o m) : m.Fresh := by
  cases h with
  | booted hpath hread hboot => exact .ofImage hboot
  | blank hnone hlayout => exact .ofLayout hlayout

theorem machineFor_of_refused (h : Refused read o) :
    ∃ e, machineFor read o = .error e ∧ e.exitStatus = 1 := by
  cases h with
  | @unreadable path e hpath hread =>
      exact ⟨.unreadable path e, by simp only [machineFor, hpath, hread], rfl⟩
  | @unbootable path image hpath hread himage =>
      rcases Image.boot_cases image with ⟨hw, -⟩ | ⟨-, e, hboot⟩
      · exact absurd hw himage
      · exact ⟨.unbootable path e,
          by simp only [machineFor, hpath, hread, hboot, machineOf], rfl⟩
  | unfit hnone hlayout =>
      obtain ⟨e, he⟩ := Machine.ofLayout_of_not_valid hlayout
      refine ⟨.setup e, ?_, rfl⟩
      rw [machineFor, hnone]
      exact congrArg (machineOf .setup) he

theorem machineFor_of_not_refused (h : ¬ Refused read o) :
    ∃ m, Supplied read o m ∧ machineFor read o = .ok m := by
  cases hpath : o.image with
  | none =>
      by_cases hvalid : o.layout.Valid
      · have hm := Machine.ofLayout_of_valid hvalid
        refine ⟨_, .blank hpath hm (Machine.laidOut_describes hvalid), ?_⟩
        rw [machineFor, hpath]
        exact congrArg (machineOf .setup) hm
      · exact absurd (.unfit hpath hvalid) h
  | some path =>
      cases hread : read path with
      | error e => exact absurd (.unreadable hpath hread) h
      | ok image =>
          rcases Image.boot_cases image with ⟨hw, hadmits, hboot⟩ | ⟨himage, -⟩
          · have hlen : 16 ≤ image.length := Nat.le_trans (by decide) hw.length_ge
            exact ⟨_, .booted hpath hread hboot (Image.booted_describes hlen hadmits),
              by simp only [machineFor, hpath, hread, hboot, machineOf]⟩
          · exact absurd (.unbootable hpath hread himage) h

/-! ## What is shown -/

/-- An address as it is shown: eight digits behind the mark of their base. -/
def AddressShown (a : Address) (text : String) : Prop :=
  ∃ digits, text.toList = "0x".toList ++ digits ∧ Text.EightDigits a.toNat digits

/-- The pieces of text that are always shown, with the addresses written out. -/
def transcript (console buffer : String) (blocks : List String) (cursor : String)
    (halted : Bool) : List String :=
  ["--- Console ---\n", console, "--- Print Buffer ---\n", buffer, "\n", "--- Heap ---\n"] ++
  blocks.mapIdx (fun i a => "[" ++ toString i ++ "] " ++ a ++ "\n") ++
  ["cursor: ", cursor, "  halted: ", if halted then "true" else "false", "\n"]

/-- The text that is always shown of a machine and a report that a script has left: the
messages that found room between two positions, once as lines and once on end, and then
the addresses in the report. -/
structure SummaryShown (s : Script) (start stop : Nat) (m : Machine) (r : Report)
    (text : String) : Prop where
  console : m.consoleText =
    String.join ((s.stored start stop).map (Text.cut · ++ "\n")) ++
      if r.halted then "malloc error: out of memory\n" else ""
  buffer : r.printBuffer.text = String.join ((s.stored start stop).map Text.cut)
  lines : ∃ blocks cursor, List.Forall₂ AddressShown r.allocations blocks ∧
    AddressShown r.cursor cursor ∧
    text = String.join
      (transcript m.consoleText r.printBuffer.text blocks cursor r.halted)

/-- The text that is shown behind it: memory from the start of the stack to the cursor or
to its end, if that is asked for and there is any. -/
structure MemoryShown (o : Options) (stackStart memEnd : Address) (m : Machine) (r : Report)
    (text : String) : Prop where
  stackStart_eq : m.stackStart = .ok stackStart
  memEnd_eq : m.memEnd = .ok memEnd
  dumped :
    if o.dump = true ∧ r.cursor ≠ Address.null ∧ stackStart.toNat < m.memory.size then
      let stop := min r.cursor.toNat m.memory.size
      m.dump stackStart.toNat stop = .ok text ∧
        Dump.Tells stackStart.toNat stop memEnd stackStart
          (m.memory.extract stackStart.toNat stop) text
    else
      text = ""

theorem hexNumber_shown (a : Address) : AddressShown a (Text.hexNumber a.toNat) :=
  ⟨(Text.hex8 a.toNat).toList, String.toList_append, Text.hex8_eightDigits a.toNat_lt⟩

theorem summary_eq (m : Machine) (r : Report) :
    summary m r = String.join (transcript m.consoleText r.printBuffer.text
      (r.allocations.map fun a => Text.hexNumber a.toNat) (Text.hexNumber r.cursor.toNat)
      r.halted) := by
  unfold summary blockLines transcript Text.ofBool
  rw [List.mapIdx_eq_zipIdx_map, List.zipIdx_map, List.map_map]
  simp only [String.join_append, String.join_cons, String.join_nil, String.append_empty,
    String.append_assoc]
  rfl

theorem summary_shown {s : Script} {start stop : Nat} {m m' : Machine} {r : Report}
    (h : s.Outcome start stop m r m') (hempty : m.console = #[]) :
    SummaryShown s start stop m' r (summary m' r) where
  console := h.consoleText hempty
  buffer := h.bufferText
  lines := by
    refine ⟨_, _, ?_, hexNumber_shown r.cursor, summary_eq m' r⟩
    rw [List.forall₂_map_right_iff, List.forall₂_same]
    exact fun a _ => hexNumber_shown a

/-- There is memory to show as soon as the cursor has moved. -/
theorem lt_min_cursor_iff {stackStart cursor : Address}
    (hcursor : cursor = Address.null ∨ stackStart < cursor) (size : Nat) :
    stackStart.toNat < min cursor.toNat size ↔
      cursor ≠ Address.null ∧ stackStart.toNat < size := by
  rcases hcursor with hnull | hlt
  · rw [hnull]
    simp [Address.null]
  · have hlt' := UInt32.lt_iff_toNat_lt.mp hlt
    have hne : cursor ≠ Address.null := by
      intro hnull
      rw [hnull] at hlt'
      exact Nat.not_lt_zero _ hlt'
    rw [Nat.lt_min]
    exact ⟨fun h => ⟨hne, h.2⟩, fun h => ⟨hlt', h.2⟩⟩

theorem memory_shown {m : Machine} {stackStart memEnd : Address} {r : Report}
    (hm : m.Shows stackStart memEnd)
    (hcursor : r.cursor = Address.null ∨ stackStart < r.cursor) (o : Options) :
    ∃ text, MemoryShown o stackStart memEnd m r text ∧
      (if o.dump then usedMemory m r else .ok "") = .ok text := by
  have hused : usedMemory m r =
      if stackStart.toNat < min r.cursor.toNat m.memory.size then
        m.dump stackStart.toNat (min r.cursor.toNat m.memory.size)
      else .ok "" := by
    rw [usedMemory, hm.stackStart_eq]
    rfl
  have hiff := lt_min_cursor_iff hcursor m.memory.size
  by_cases hshown : o.dump = true ∧ r.cursor ≠ Address.null ∧
      stackStart.toNat < m.memory.size
  · have hlt := hiff.mpr hshown.2
    obtain ⟨text, htext, htells⟩ := Machine.dump_tells hm (Nat.min_le_right _ _) hlt
    refine ⟨text, ⟨hm.stackStart_eq, hm.memEnd_eq, ?_⟩, ?_⟩
    · rw [if_pos hshown]
      exact ⟨htext, htells⟩
    · rw [if_pos hshown.1, hused, if_pos hlt, htext]
  · refine ⟨"", ⟨hm.stackStart_eq, hm.memEnd_eq, if_neg hshown ▸ rfl⟩, ?_⟩
    split
    · next hdump => rw [hused, if_neg fun hlt => hshown ⟨hdump, hiff.mp hlt⟩]
    · rfl

theorem execute_eq {m m' : Machine} {r : Report} {text : String}
    (hfor : machineFor read o = .ok m) (hrun : o.script.run m = .ok r m')
    (htext : (if o.dump then usedMemory m' r else .ok "") = .ok text) :
    execute read o = .ok (summary m' r ++ text) := by
  have hrun' : Script.run ⟨o.messages, o.allocations⟩ m = .ok r m' := hrun
  simp only [execute, hfor, hrun']
  split at htext
  · next hdump => rw [if_pos hdump, htext]
  · next hdump =>
      cases htext
      rw [if_neg hdump, String.append_empty]

/-- An image brings its own sizes. -/
theorem execute_of_image {path : String} (hpath : o.image = some path)
    (memorySize stackSize : Option UInt32) :
    execute read { o with memorySize, stackSize } = execute read o := by
  have hfor : machineFor read { o with memorySize, stackSize } = machineFor read o := by
    simp only [machineFor, hpath]
  simp only [execute, hfor]

/-! ## The whole program -/

theorem program_eq {arguments : List String} (hparse : parse arguments = .ok (.run o)) :
    program read arguments = execute read o := by
  simp only [program, hparse]

theorem execute_of_refused (h : Refused read o) :
    ∃ e, execute read o = .error e ∧ e.exitStatus = 1 := by
  obtain ⟨e, hfor, hstatus⟩ := machineFor_of_refused h
  exact ⟨e, by simp only [execute, hfor], hstatus⟩

theorem execute_of_not_refused (h : ¬ Refused read o) :
    ∃ m stackStart memEnd r m' shown memory, Supplied read o m ∧
      m.Ready stackStart memEnd ∧ o.script.run m = .ok r m' ∧
      o.script.Outcome (stackStart.toNat + 4) memEnd.toNat m r m' ∧
      SummaryShown o.script (stackStart.toNat + 4) memEnd.toNat m' r shown ∧
      MemoryShown o stackStart memEnd m' r memory ∧
      execute read o = .ok (shown ++ memory) := by
  obtain ⟨m, hm, hfor⟩ := machineFor_of_not_refused h
  obtain ⟨stackStart, memEnd, hready⟩ := hm.fresh.ready
  obtain ⟨r, m', hrun, houtcome⟩ := o.script.run_outcome hready
  obtain ⟨memory, hmemory, htext⟩ :=
    memory_shown (houtcome.shows hready) (houtcome.cursor_cases hready) o
  exact ⟨m, stackStart, memEnd, r, m', summary m' r, memory, hm, hready, hrun, houtcome,
    summary_shown houtcome hm.fresh.console_eq, hmemory, execute_eq hfor hrun htext⟩

theorem execute_ok_of_not_refused (h : ¬ Refused read o) :
    ∃ text, execute read o = .ok text := by
  obtain ⟨_, _, _, _, _, _, _, -, -, -, -, -, -, hexecute⟩ := execute_of_not_refused h
  exact ⟨_, hexecute⟩

/-- An accepted command line that asks for a run never faults. It fails only if there is
no machine for it. Otherwise the machine is the one that the image or the sizes describe,
the script leaves what its courses say, and the program shows the console, the print
buffer, the heap and, if that is asked for, the memory in use. The sizes given next to an
image make no difference. -/
theorem program_fails_iff_refused (read : String → Except ReadError (List UInt8))
    (arguments : List String) (o : Options) (hparse : parse arguments = .ok (.run o)) :
    (∀ f, program read arguments ≠ .error (.fault f)) ∧
    ((∃ e, program read arguments = .error e ∧ e.exitStatus = 1) ↔ Refused read o) ∧
    (¬ Refused read o → ∃ m stackStart memEnd r m' shown memory, Supplied read o m ∧
      m.Ready stackStart memEnd ∧ o.script.run m = .ok r m' ∧
      o.script.Outcome (stackStart.toNat + 4) memEnd.toNat m r m' ∧
      SummaryShown o.script (stackStart.toNat + 4) memEnd.toNat m' r shown ∧
      MemoryShown o stackStart memEnd m' r memory ∧
      program read arguments = .ok (shown ++ memory)) ∧
    (∀ path arguments' o', o.image = some path → parse arguments' = .ok (.run o') →
      o' = { o with memorySize := o'.memorySize, stackSize := o'.stackSize } →
      program read arguments' = program read arguments) := by
  rw [program_eq hparse]
  refine ⟨?_, ⟨?_, execute_of_refused⟩, execute_of_not_refused, ?_⟩
  · intro f hfault
    by_cases h : Refused read o
    · obtain ⟨e, hexecute, hstatus⟩ := execute_of_refused h
      rw [hfault, Except.error.injEq] at hexecute
      subst hexecute
      exact absurd hstatus (show (101 : UInt32) ≠ 1 by decide)
    · obtain ⟨text, hexecute⟩ := execute_ok_of_not_refused h
      rw [hfault] at hexecute
      cases hexecute
  · rintro ⟨e, herror, -⟩
    by_cases h : Refused read o
    · exact h
    · obtain ⟨text, hexecute⟩ := execute_ok_of_not_refused h
      rw [herror] at hexecute
      cases hexecute
  · intro path arguments' o' hpath hparse' ho
    rw [program_eq hparse', ho]
    exact execute_of_image hpath _ _

/-- A dump is asked for when the last block has sent the cursor to the last address, far
past the image's memory and past the size that is given with it. -/
theorem program_fails_iff_refused_saturating :
    let image := (Header.make 0 260 300).withProgram (List.replicate 256 0)
    let read : String → Except ReadError (List UInt8) := fun _ => .ok image
    let o : Options :=
      { image := some "disk", messages := ["hi"], allocations := [0xFFFFFFFF], dump := true }
    let arguments := ["--image", "disk", "-m", "hi", "--alloc=0xFFFFFFFF", "--dump"]
    let text := String.join
      ["--- Console ---\n", "hi\n", "--- Print Buffer ---\n", "hi\n", "--- Heap ---\n",
        "[0] 0x00000108\n", "[1] 0x0000010b\n", "cursor: 0xffffffff  halted: false\n",
        "--- Memory Dump ---\n", "mem_end: 0x0000012c  stack_start: 0x00000104\n",
        "00000104  00000000686900000000000000000000  |....hi..........|\n",
        "00000114  00000000000000000000000000000000  |................|\n",
        "00000124  0000000000000000                  |........|\n", "-------------------\n"]
    parse arguments = .ok (.run o) ∧ ¬ Refused read o ∧
      program read arguments = .ok text ∧
      (∃ m stackStart memEnd r m' shown memory, Supplied read o m ∧
        m.Ready stackStart memEnd ∧ o.script.run m = .ok r m' ∧
        o.script.Outcome (stackStart.toNat + 4) memEnd.toNat m r m' ∧
        SummaryShown o.script (stackStart.toNat + 4) memEnd.toNat m' r shown ∧
        MemoryShown o stackStart memEnd m' r memory ∧ shown ++ memory = text) ∧
      program read (arguments ++ ["--memory-size", "7"]) = .ok text := by
  intro image read o arguments text
  have hok : ∀ {ε α : Type} {x : Except ε α} {a : α}, x.toOption = some a → x = .ok a := by
    intro ε α x a h
    cases x with
    | error e => cases h
    | ok a' => rw [Option.some.inj h]
  have hparse : parse arguments = .ok (.run o) := hok (by decide +kernel)
  have hparse' : parse (arguments ++ ["--memory-size", "7"]) =
      .ok (.run { o with memorySize := some 7 }) := hok (by decide +kernel)
  have htext : program read arguments = .ok text := hok (by decide +kernel)
  have hfit : ¬ Refused read o := by
    rintro (⟨-, hread⟩ | ⟨-, hread, himage⟩ | ⟨hnone, -⟩)
    · cases hread
    · cases hread
      exact himage ⟨by decide +kernel, by decide +kernel, by decide +kernel,
        by decide +kernel, by decide +kernel⟩
    · cases hnone
  obtain ⟨-, -, hshown, hsizes⟩ := program_fails_iff_refused read arguments o hparse
  obtain ⟨m, stackStart, memEnd, r, m', shown, memory, hm, hready, hrun, houtcome, hsummary,
    hmemory, hprogram⟩ := hshown hfit
  rw [htext, Except.ok.injEq] at hprogram
  refine ⟨hparse, hfit, htext, ⟨m, stackStart, memEnd, r, m', shown, memory, hm, hready, hrun,
    houtcome, hsummary, hmemory, hprogram.symm⟩, ?_⟩
  rw [hsizes "disk" _ _ rfl hparse' rfl, htext]

end CommandLine

end FlatMachine
