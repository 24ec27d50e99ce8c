/-!
# One-line records

The text that shows a value for inspection: a name, then its fields in braces, or
a list in brackets.
-/

namespace FlatMachine.Text

/-- A list of texts in brackets. -/
def bracketed (items : List String) : String :=
  "[" ++ ", ".intercalate items ++ "]"

/-- A list of bytes in brackets, in decimal. -/
def byteList (bs : List UInt8) : String :=
  bracketed (bs.map fun b => toString b.toNat)

/-- A named record with its fields in braces. -/
def record (name : String) (fields : List (String × String)) : String :=
  name ++ " \x7b " ++ ", ".intercalate (fields.map fun f => f.1 ++ ": " ++ f.2) ++ " \x7d"

/-- The spelling of a truth value. -/
def ofBool (b : Bool) : String :=
  if b then "true" else "false"

end FlatMachine.Text
