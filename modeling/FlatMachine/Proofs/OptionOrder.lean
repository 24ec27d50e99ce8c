import FlatMachine.CommandLine.Program
import FlatMachine.Proofs.ProgramRun
import Mathlib.Data.List.Induction
import Mathlib.Data.List.Perm.Basic

/-!
# The order and the spelling of options

A command line is read from the left into options that are added one at a time, and
nothing in it says that the order is of no account. It is not plain to see either: an
option that is set once must not be set before, a value that stands apart is judged
after a look at the next argument, and messages and blocks add up in the order given.

The way from here to there goes over what the user meant, a list of occurrences. How
an occurrence is spelled is settled first, argument by argument: whatever the
spelling, reading goes on with that occurrence accepted. What is left is a fold, and
the options that come out of it depend on the occurrences of each option alone. A
rearrangement keeps these: by assumption for messages and blocks, and for the rest
because there is at most one of each.
-/

namespace FlatMachine.CommandLine

/-- An option as a user gives it, with its value if it takes one. -/
inductive Occurrence where
  | valued (n : Name) (value : String)
  | switch (n : Name)
deriving DecidableEq, Repr

namespace Occurrence

def name : Occurrence → Name
  | valued n _ => n
  | switch n => n

def value? : Occurrence → Option String
  | valued _ v => some v
  | switch _ => none

/-- A value fits its option: it is not empty and does not look like an option, and it
is a number where one is expected. -/
def Proper : Occurrence → Prop
  | valued n v => n.takesValue = true ∧ v ≠ "" ∧ v.toList.head? ≠ some '-' ∧
      (n = .memorySize ∨ n = .stackSize ∨ n = .alloc → ∃ w, Text.readNumber v = .ok w)
  | switch n => n = .dump ∨ n = .verbose

/-- The arguments that an occurrence can be written as. A value that begins with an
equals sign cannot follow a short option directly. -/
inductive Spells : Occurrence → List String → Prop
  | apart (n : Name) (v : String) : Spells (valued n v) ["--" ++ n.long, v]
  | joined (n : Name) (v : String) : Spells (valued n v) ["--" ++ n.long ++ "=" ++ v]
  | shortApart {n : Name} {c : Char} (v : String) (hc : n.short? = some c) :
      Spells (valued n v) [String.ofList ['-', c], v]
  | shortJoined {n : Name} {c : Char} {v : String} (hc : n.short? = some c)
      (hv : v.toList.head? ≠ some '=') :
      Spells (valued n v) [String.ofList ('-' :: c :: v.toList)]
  | switch (n : Name) : Spells (switch n) ["--" ++ n.long]

end Occurrence

open Occurrence (Spells)

/-- The command lines that a list of occurrences can be written as. -/
inductive Spelled : List Occurrence → List String → Prop
  | nil : Spelled [] []
  | cons {x : Occurrence} {xs : List Occurrence} {words arguments : List String}
      (hx : Spells x words) (hxs : Spelled xs arguments) :
      Spelled (x :: xs) (words ++ arguments)

/-! ## Single arguments -/

theorem Name.short_cases {n : Name} {c : Char} (hc : n.short? = some c)
    (hn : n.takesValue = true) : (n = .message ∧ c = 'm') ∨ (n = .alloc ∧ c = 'a') := by
  cases n with
  | message => exact .inl ⟨rfl, (Option.some.inj hc).symm⟩
  | alloc => exact .inr ⟨rfl, (Option.some.inj hc).symm⟩
  | help => cases hn
  | version => cases hn
  | _ => cases hc

namespace Token

theorem ofArgument_plain {v : String} (hv : v.toList.head? ≠ some '-') :
    ofArgument v = plain := by
  rw [ofArgument]
  split
  · next h => exact absurd (by rw [h]; rfl) hv
  · next h => exact absurd (by rw [h]; rfl) hv
  · next h => exact absurd (by rw [h]; rfl) hv
  · rfl

theorem ofArgument_long (n : Name) : ofArgument ("--" ++ n.long) = option n none := by
  cases n <;> decide +kernel

theorem ofArgument_joined (n : Name) (v : String) :
    ofArgument ("--" ++ n.long ++ "=" ++ v) = option n (some v) := by
  -- No option's own name has an equals sign in it, so the first one ends the name.
  have hequals : '=' ∉ n.long.toList := by
    cases n <;> decide
  have hname : ∀ c ∈ n.long.toList, decide (c ≠ '=') = true :=
    fun c hc => decide_eq_true fun h => hequals (h ▸ hc)
  have hknown : Name.ofLong? n.long.toList = some n := by
    cases n <;> rfl
  have hchars : ("--" ++ n.long ++ "=" ++ v).toList =
      '-' :: '-' :: (n.long.toList ++ '=' :: v.toList) := by
    simp
  have hlong : ofArgument ("--" ++ n.long ++ "=" ++ v) =
      ofLong (n.long.toList ++ '=' :: v.toList) := by
    rw [ofArgument, hchars]
    cases hname' : n.long.toList with
    | nil => rfl
    | cons c cs => rfl
  rw [hlong, ofLong, List.takeWhile_append_of_pos hname, List.dropWhile_append_of_pos hname,
    List.takeWhile_cons_of_neg (by decide), List.dropWhile_cons_of_neg (by decide),
    List.append_nil, hknown]
  simp

theorem ofArgument_short {n : Name} {c : Char} (hc : n.short? = some c)
    (hn : n.takesValue = true) : ofArgument (String.ofList ['-', c]) = option n none := by
  rcases Name.short_cases hc hn with ⟨rfl, rfl⟩ | ⟨rfl, rfl⟩ <;> decide +kernel

theorem ofArgument_shortJoined {n : Name} {c : Char} {v : String} (hc : n.short? = some c)
    (hn : n.takesValue = true) (hne : v ≠ "") (hv : v.toList.head? ≠ some '=') :
    ofArgument (String.ofList ('-' :: c :: v.toList)) = option n (some v) := by
  have hknown : Name.ofShort? c = some n := by
    rcases Name.short_cases hc hn with ⟨rfl, rfl⟩ | ⟨rfl, rfl⟩ <;> decide
  have hshort : ofArgument (String.ofList ('-' :: c :: v.toList)) = ofShort c v.toList := by
    rw [ofArgument, String.toList_ofList]
    rcases Name.short_cases hc hn with ⟨rfl, rfl⟩ | ⟨rfl, rfl⟩ <;> rfl
  have hvalue : String.ofList v.toList = v := String.ofList_toList
  rw [hshort, ofShort, hknown]
  simp only [hn, if_true]
  split
  · next h => exact absurd (String.toList_eq_nil_iff.mp h) hne
  · next h => exact absurd (by rw [h]; rfl) hv
  · rw [hvalue]

end Token

/-! ## Reading an occurrence -/

def Options.accept (o : Options) : Occurrence → Except UsageError Options
  | .valued n v => o.give n v
  | .switch n => o.turnOn n

section Reading

variable {o : Options} {n : Name} {w v : String} {rest : List String}

theorem parseFrom_attached (hw : Token.ofArgument w = .option n (some v))
    (hn : n.takesValue = true) :
    parseFrom o (w :: rest) = (do parseFrom (← o.give n v) rest) := by
  have hstray : stray? (w :: rest) = none := by
    simp only [stray?, hw, hn, if_true]
  rw [parseFrom, hstray, hw]
  cases n with
  | help | version => cases hn
  | _ => rfl

theorem parseFrom_apart (hw : Token.ofArgument w = .option n none)
    (hn : n.takesValue = true) (hv : Token.ofArgument v = .plain)
    (hrest : stray? rest = none) :
    parseFrom o (w :: v :: rest) = (do parseFrom (← o.give n v) rest) := by
  have hstray : stray? (w :: v :: rest) = none := by
    simp only [stray?, hw]
  rw [parseFrom, hstray, hw]
  cases n with
  | help | version => cases hn
  | _ => simp only [hn, if_true, hv, hrest]

theorem parseFrom_switch (hw : Token.ofArgument w = .option n none)
    (hn : n = .dump ∨ n = .verbose) :
    parseFrom o (w :: rest) = (do parseFrom (← o.turnOn n) rest) := by
  have hstray : stray? (w :: rest) = none := by
    simp only [stray?, hw]
  rw [parseFrom, hstray, hw]
  rcases hn with rfl | rfl <;> rfl

end Reading

variable {x : Occurrence} {xs ys : List Occurrence} {words arguments : List String}

theorem stray?_spells (hx : Spells x words) (hproper : x.Proper) (rest : List String) :
    stray? (words ++ rest) = none := by
  cases hx with
  | apart n v => simp only [List.cons_append, stray?, Token.ofArgument_long]
  | joined n v =>
      simp only [List.cons_append, stray?, Token.ofArgument_joined, hproper.1, if_true]
  | shortApart v hc =>
      simp only [List.cons_append, stray?, Token.ofArgument_short hc hproper.1]
  | shortJoined hc hv =>
      simp only [List.cons_append, stray?,
        Token.ofArgument_shortJoined hc hproper.1 hproper.2.1 hv, hproper.1, if_true]
  | switch n => simp only [List.cons_append, stray?, Token.ofArgument_long]

/-- However it is spelled, reading goes on with the occurrence accepted. -/
theorem parseFrom_spells (hx : Spells x words) (hproper : x.Proper) {rest : List String}
    (hrest : stray? rest = none) (o : Options) :
    parseFrom o (words ++ rest) = (do parseFrom (← o.accept x) rest) := by
  cases hx with
  | apart n v =>
      exact parseFrom_apart (Token.ofArgument_long n) hproper.1
        (Token.ofArgument_plain hproper.2.2.1) hrest
  | joined n v => exact parseFrom_attached (Token.ofArgument_joined n v) hproper.1
  | shortApart v hc =>
      exact parseFrom_apart (Token.ofArgument_short hc hproper.1) hproper.1
        (Token.ofArgument_plain hproper.2.2.1) hrest
  | shortJoined hc hv =>
      exact parseFrom_attached
        (Token.ofArgument_shortJoined hc hproper.1 hproper.2.1 hv) hproper.1
  | switch n => exact parseFrom_switch (Token.ofArgument_long n) hproper

theorem stray?_spelled (h : Spelled xs arguments) (hproper : ∀ x ∈ xs, x.Proper) :
    stray? arguments = none := by
  cases h with
  | nil => rfl
  | cons hx _ => exact stray?_spells hx (hproper _ List.mem_cons_self) _

/-- A command line is read as its occurrences, accepted one after another. -/
theorem parseFrom_spelled (h : Spelled xs arguments) (hproper : ∀ x ∈ xs, x.Proper)
    (o : Options) :
    parseFrom o arguments = (do pure (.run (← xs.foldlM Options.accept o))) := by
  induction h generalizing o with
  | nil => rfl
  | @cons x xs words arguments hx hxs ih =>
      have htail : ∀ x ∈ xs, x.Proper := fun x hx => hproper x (List.mem_cons_of_mem _ hx)
      rw [parseFrom_spells hx (hproper x List.mem_cons_self) (stray?_spelled hxs htail),
        List.foldlM_cons]
      cases haccept : o.accept x with
      | error e => rfl
      | ok o' => exact ih htail o'

/-! ## What the options come to -/

/-- The occurrences of one option, in order. -/
def given (n : Name) (xs : List Occurrence) : List Occurrence :=
  xs.filter (·.name = n)

def values (n : Name) (xs : List Occurrence) : List String :=
  (given n xs).filterMap Occurrence.value?

def numbers (n : Name) (xs : List Occurrence) : List UInt32 :=
  (values n xs).filterMap fun v => (Text.readNumber v).toOption

/-- The options that some occurrences come to. -/
def gather (xs : List Occurrence) : Options where
  image := (values .image xs).head?
  memorySize := (numbers .memorySize xs).head?
  stackSize := (numbers .stackSize xs).head?
  messages := values .message xs
  allocations := numbers .alloc xs
  dump := !(given .dump xs).isEmpty
  verbose := !(given .verbose xs).isEmpty

/-- Occurrences that a user may give: each proper, and messages and blocks alone given
more than once. -/
structure WellFormed (xs : List Occurrence) : Prop where
  proper : ∀ x ∈ xs, x.Proper
  once : ∀ n, n ≠ .message → n ≠ .alloc → (given n xs).length ≤ 1

@[simp] theorem Occurrence.name_valued (n : Name) (v : String) : (valued n v).name = n := rfl

@[simp] theorem Occurrence.name_switch (n : Name) : (switch n).name = n := rfl

@[simp] theorem Occurrence.value?_valued (n : Name) (v : String) :
    (valued n v).value? = some v := rfl

@[simp] theorem Occurrence.value?_switch (n : Name) : (switch n).value? = none := rfl

@[simp] theorem given_concat (n : Name) (xs : List Occurrence) (x : Occurrence) :
    given n (xs ++ [x]) = given n xs ++ if x.name = n then [x] else [] := by
  rw [given, List.filter_append, ← given, List.filter_singleton]
  simp

theorem WellFormed.init (h : WellFormed (xs ++ [x])) : WellFormed xs where
  proper y hy := h.proper y (List.mem_append_left _ hy)
  once n hm ha := by
    have := h.once n hm ha
    rw [given_concat, List.length_append] at this
    omega

/-- The last occurrence is the first of its option. -/
theorem WellFormed.given_last (h : WellFormed (xs ++ [x])) (hm : x.name ≠ .message)
    (ha : x.name ≠ .alloc) : given x.name xs = [] := by
  have := h.once x.name hm ha
  rw [given_concat, if_pos rfl, List.length_append, List.length_singleton] at this
  exact List.length_eq_zero_iff.mp (by omega)

theorem WellFormed.accept_last (h : WellFormed (xs ++ [x])) :
    (gather xs).accept x = .ok (gather (xs ++ [x])) := by
  have hproper := h.proper x (List.mem_append_right _ List.mem_cons_self)
  have hfirst := h.given_last
  cases x with
  | valued n v =>
      obtain ⟨hn, hne, -, hnumber⟩ := hproper
      -- An option that takes a number has been given one.
      have hread : n = .memorySize ∨ n = .stackSize ∨ n = .alloc →
          ∃ w, numberFor n v = .ok w ∧ (Text.readNumber v).toOption = some w := by
        intro hn'
        obtain ⟨w, hw⟩ := hnumber hn'
        exact ⟨w, by rw [numberFor, hw], by rw [hw]; rfl⟩
      cases n with
      | image =>
          have hnone : given .image xs = [] := hfirst nofun nofun
          simp [Options.accept, Options.give, gather, values, numbers, hnone, hne]
      | memorySize =>
          have hnone : given .memorySize xs = [] := hfirst nofun nofun
          obtain ⟨w, hw, hw'⟩ := hread (.inl rfl)
          simp [Options.accept, Options.give, gather, values, numbers, hnone, hw, hw']
      | stackSize =>
          have hnone : given .stackSize xs = [] := hfirst nofun nofun
          obtain ⟨w, hw, hw'⟩ := hread (.inr (.inl rfl))
          simp [Options.accept, Options.give, gather, values, numbers, hnone, hw, hw']
      | message => simp [Options.accept, Options.give, gather, values, numbers]
      | alloc =>
          obtain ⟨w, hw, hw'⟩ := hread (.inr (.inr rfl))
          simp [Options.accept, Options.give, gather, values, numbers, hw, hw']
      | dump | verbose | help | version => cases hn
  | switch n =>
      rcases hproper with rfl | rfl
      · have hnone : given .dump xs = [] := hfirst nofun nofun
        simp [Options.accept, Options.turnOn, gather, values, numbers, hnone]
      · have hnone : given .verbose xs = [] := hfirst nofun nofun
        simp [Options.accept, Options.turnOn, gather, values, numbers, hnone]

theorem WellFormed.foldlM_accept (h : WellFormed xs) :
    xs.foldlM Options.accept {} = .ok (gather xs) := by
  -- From the right, because a set-once option looks at what came before it.
  induction xs using List.reverseRecOn with
  | nil => rfl
  | append_singleton xs x ih =>
      rw [List.foldlM_append, ih h.init]
      show [x].foldlM Options.accept (gather xs) = _
      rw [List.foldlM_cons, h.accept_last]
      rfl

theorem WellFormed.parse_eq (h : WellFormed xs) (hs : Spelled xs arguments) :
    parse arguments = .ok (.run (gather xs)) := by
  rw [parse, parseFrom_spelled hs h.proper, h.foldlM_accept]
  rfl

/-! ## Rearranging -/

/-- The same occurrences in another order that keeps messages and blocks in theirs, with
or without the switch for more detail. -/
structure Rearranged (xs ys : List Occurrence) : Prop where
  perm : (xs.filter (·.name ≠ .verbose)).Perm (ys.filter (·.name ≠ .verbose))
  messages : given .message xs = given .message ys
  blocks : given .alloc xs = given .alloc ys

theorem given_perm (h : (xs.filter (·.name ≠ .verbose)).Perm (ys.filter (·.name ≠ .verbose)))
    {n : Name} (hn : n ≠ .verbose) : (given n xs).Perm (given n ys) := by
  have hgiven : ∀ zs : List Occurrence, (zs.filter (·.name ≠ .verbose)).filter (·.name = n) =
      given n zs := by
    intro zs
    rw [List.filter_filter, given]
    refine List.filter_congr fun z _ => ?_
    by_cases hz : z.name = n <;> simp [hz, hn]
  rw [← hgiven xs, ← hgiven ys]
  exact h.filter _

theorem Rearranged.given_eq (h : Rearranged xs ys) (hx : WellFormed xs) {n : Name}
    (hn : n ≠ .verbose) : given n xs = given n ys := by
  by_cases hm : n = .message
  · rw [hm]
    exact h.messages
  by_cases ha : n = .alloc
  · rw [ha]
    exact h.blocks
  · -- At most one occurrence, so there is only one order to have it in.
    have hperm := given_perm h.perm hn
    have hlen := hx.once n hm ha
    cases hgiven : given n xs with
    | nil =>
        rw [hgiven] at hperm
        exact hperm.nil_eq
    | cons z zs =>
        rw [hgiven, List.length_cons] at hlen
        have hnil : zs = [] := List.length_eq_zero_iff.mp (by omega)
        rw [hgiven, hnil] at hperm
        rw [hnil]
        exact List.singleton_perm.mp hperm

theorem Rearranged.gather_eq (h : Rearranged xs ys) (hx : WellFormed xs) :
    gather ys = { gather xs with verbose := (gather ys).verbose } := by
  simp only [gather, values, numbers, h.given_eq hx (show Name.image ≠ .verbose by decide),
    h.given_eq hx (show Name.memorySize ≠ .verbose by decide),
    h.given_eq hx (show Name.stackSize ≠ .verbose by decide), h.messages, h.blocks,
    h.given_eq hx (show Name.dump ≠ .verbose by decide)]

/-- The switch for more detail changes nothing that is shown. -/
theorem execute_verbose (read : String → Except ReadError (List UInt8)) (o : Options)
    (verbose : Bool) : execute read { o with verbose } = execute read o :=
  rfl

/-- Two command lines with the same occurrences, in whatever order and spelling, and with
or without the switch for more detail, are both accepted and ask for the options that the
occurrences add up to. The program does the same for both: it shows the same text, or
fails for the same reason with the same status. -/
theorem program_ignores_order (read : String → Except ReadError (List UInt8))
    {xs ys : List Occurrence} {arguments arguments' : List String} (hx : WellFormed xs)
    (hy : WellFormed ys) (h : Rearranged xs ys) (hs : Spelled xs arguments)
    (hs' : Spelled ys arguments') :
    program read arguments' = program read arguments ∧
    parse arguments = .ok (.run (gather xs)) ∧
    parse arguments' = .ok (.run { gather xs with verbose := (gather ys).verbose }) := by
  have hparse := hx.parse_eq hs
  have hparse' := hy.parse_eq hs'
  rw [h.gather_eq hx] at hparse'
  refine ⟨?_, hparse, hparse'⟩
  rw [program_eq hparse, program_eq hparse', execute_verbose]

/-- Two messages and a block among other options, moved about and respelled. One of the
messages begins with an equals sign. -/
theorem program_ignores_order_respelled :
    let read : String → Except ReadError (List UInt8) := fun _ => .error .notFound
    let xs : List Occurrence := [.valued .message "hi", .valued .alloc "0x10", .switch .dump,
      .valued .message "=)", .valued .memorySize "512"]
    let ys : List Occurrence := [.switch .verbose, .valued .alloc "0x10",
      .valued .memorySize "512", .valued .message "hi", .valued .message "=)", .switch .dump]
    let arguments := ["--message", "hi", "-a", "0x10", "--dump", "-m", "=)",
      "--memory-size=512"]
    let arguments' := ["--verbose", "-a0x10", "--memory-size", "512", "-mhi", "--message==)",
      "--dump"]
    let o : Options :=
      { memorySize := some 512, messages := ["hi", "=)"], allocations := [16], dump := true }
    WellFormed xs ∧ WellFormed ys ∧ Rearranged xs ys ∧ Spelled xs arguments ∧
      Spelled ys arguments' ∧ program read arguments' = program read arguments ∧
      parse arguments = .ok (.run o) ∧
      parse arguments' = .ok (.run { o with verbose := true }) := by
  intro read xs ys arguments arguments' o
  have hnumber : ∀ {v : String}, (Text.readNumber v).toOption.isSome = true →
      ∃ w, Text.readNumber v = .ok w := by
    intro v hv
    cases hread : Text.readNumber v with
    | error e =>
        rw [hread] at hv
        cases hv
    | ok w => exact ⟨w, rfl⟩
  have hten : Occurrence.Proper (.valued .alloc "0x10") :=
    ⟨rfl, by decide, by decide, fun _ => hnumber (by decide +kernel)⟩
  have hsize : Occurrence.Proper (.valued .memorySize "512") :=
    ⟨rfl, by decide, by decide, fun _ => hnumber (by decide +kernel)⟩
  have hhi : Occurrence.Proper (.valued .message "hi") :=
    ⟨rfl, by decide, by decide, by simp⟩
  have hsmile : Occurrence.Proper (.valued .message "=)") :=
    ⟨rfl, by decide, by decide, by simp⟩
  have hdump : Occurrence.Proper (.switch .dump) := .inl rfl
  have hverbose : Occurrence.Proper (.switch .verbose) := .inr rfl
  have hx : WellFormed xs := by
    refine ⟨by simp [xs, hten, hsize, hhi, hsmile, hdump], fun n hm ha => ?_⟩
    cases n with
    | message => exact absurd rfl hm
    | alloc => exact absurd rfl ha
    | _ => decide
  have hy : WellFormed ys := by
    refine ⟨by simp [ys, hten, hsize, hhi, hsmile, hdump, hverbose], fun n hm ha => ?_⟩
    cases n with
    | message => exact absurd rfl hm
    | alloc => exact absurd rfl ha
    | _ => decide
  have hxy : Rearranged xs ys := ⟨by decide, by decide, by decide⟩
  have hs : Spelled xs arguments := by
    have h := Spelled.cons (.apart .message "hi") <|
      .cons (.shortApart (n := .alloc) "0x10" rfl) <| .cons (.switch .dump) <|
      .cons (.shortApart (n := .message) "=)" rfl) <|
      .cons (.joined .memorySize "512") .nil
    exact h
  have hs' : Spelled ys arguments' := by
    have h := Spelled.cons (.switch .verbose) <|
      .cons (.shortJoined (n := .alloc) (v := "0x10") rfl (by decide)) <|
      .cons (.apart .memorySize "512") <|
      .cons (.shortJoined (n := .message) (v := "hi") rfl (by decide)) <|
      .cons (.joined .message "=)") <| .cons (.switch .dump) .nil
    exact h
  have ho : gather xs = o := by decide +kernel
  have hdetail : (gather ys).verbose = true := by decide
  obtain ⟨hsame, hparse, hparse'⟩ := program_ignores_order read hx hy hxy hs hs'
  rw [ho] at hparse
  rw [ho, hdetail] at hparse'
  exact ⟨hx, hy, hxy, hs, hs', hsame, hparse, hparse'⟩

end FlatMachine.CommandLine
