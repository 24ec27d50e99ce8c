/-!
# Addresses

An address is a 32-bit word. Plain `+` wraps around the address space, which is
what a walk along memory does. The heap must never wrap, so its arithmetic
saturates at the last address, and alignment gives up instead of passing it.
-/

namespace FlatMachine

/-- A position in the 32-bit address space. -/
abbrev Address := UInt32

namespace Address

/-- The number of addresses. -/
def space : Nat := 0x100000000

/-- The last address. -/
def last : Address := 0xFFFFFFFF

/-- The null address. -/
def null : Address := 0

/-- The address `n` past `a`, unless the address space ends before it. -/
def add? (a : Address) (n : UInt32) : Option Address :=
  if a.toNat + n.toNat < space then some (a + n) else none

/-- The address `n` past `a`, or the last one. -/
def saturatingAdd (a : Address) (n : UInt32) : Address :=
  (a.add? n).getD last

/-- How far `a` lies past `b`, zero when it does not. -/
def distanceFrom (a b : Address) : UInt32 :=
  if b ≤ a then a - b else 0

/-- The first multiple of `align` at or past `a`, unless the address space ends
before it. -/
def alignUp? (a : Address) (align : Nat) : Option Address :=
  let n := (a.toNat + (align - 1)) / align * align
  if n < space then some (UInt32.ofNat n) else none

end Address

end FlatMachine
