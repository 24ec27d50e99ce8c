import FlatMachine.Script

/-!
# Sessions

A session is a sequence of steps on some storage. Each step is an action that
gives a reply. A step that faults gives its fault instead, and the next step goes
on from whatever storage the fault left.
-/

namespace FlatMachine

/-- What a step gives back. -/
inductive Reply where
  /-- There is nothing to say. -/
  | done
  | number (n : Nat)
  | flag (b : Bool)
  | text (s : String)
  | bytes (bs : List UInt8)
  /-- A range that does not lie in memory, or a block that is not granted. -/
  | absent
  /-- The guest has halted instead of answering. -/
  | halted (h : Halted)
  /-- A request for a block that is not a valid one. -/
  | invalidRequest
  /-- The size of a list, and whether it is empty. -/
  | extent (size : Nat) (isEmpty : Bool)
  /-- Bytes, whether there are none, and their text. -/
  | buffer (bs : List UInt8) (isEmpty : Bool) (text : String)
  /-- Bytes and their text. -/
  | console (bs : List UInt8) (text : String)
  | registers (memEnd stackStart entryPoint : Address)
  | report (r : Report)
  /-- The whole contents of a memory. -/
  | contents (m : Memory)

namespace Reply

/-- The reply with an address, if there is one. -/
def ofAddress? : Option Address → Reply
  | some a => number a.toNat
  | none => absent

/-- The reply with an address, unless the guest has halted. -/
def ofOutcome : Except Halted Address → Reply
  | .ok a => number a.toNat
  | .error h => halted h

end Reply

namespace Session

variable {σ τ α β : Type}

/-- Takes each step in turn, and looks at the storage after it. -/
def run (step : τ → Action σ α) (look : σ → β) :
    List τ → σ → List (Except Fault α × β) × σ
  | [], s => ([], s)
  | t :: ts, s =>
    match step t s with
    | .ok a s' =>
      let seen := look s'
      let rest := run step look ts s'
      ((.ok a, seen) :: rest.1, rest.2)
    | .error e s' =>
      let seen := look s'
      let rest := run step look ts s'
      ((.error e, seen) :: rest.1, rest.2)

end Session

end FlatMachine
