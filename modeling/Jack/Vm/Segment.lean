/-!
# Memory segments

The segments that `push` reads and `pop` writes.
-/

namespace Jack.Vm

/-- A memory segment of the stack machine. -/
inductive Segment where
  /-- Literal numbers; the only segment that cannot be written. -/
  | constant
  | argument
  /-- Local variables of the running subroutine. -/
  | localVar
  /-- Variables shared by all subroutines of a class. -/
  | static
  /-- Fields of the current object. -/
  | thisField
  /-- The word that `pointer 1` points to, and those after it. -/
  | thatCell
  /-- The two base addresses of the segments `this` and `that`. -/
  | pointer
  | temp
  deriving DecidableEq, Repr

namespace Segment

/-- Every segment. -/
def all : List Segment :=
  [.constant, .argument, .localVar, .static, .thisField, .thatCell, .pointer, .temp]

/-- The word that writes a segment. -/
def name : Segment → String
  | .constant => "constant"
  | .argument => "argument"
  | .localVar => "local"
  | .static => "static"
  | .thisField => "this"
  | .thatCell => "that"
  | .pointer => "pointer"
  | .temp => "temp"

/-- The segment that a word writes. -/
def ofName? (word : String) : Option Segment :=
  all.find? (·.name == word)

/-- The name of a segment is read back as the segment. -/
theorem ofName?_name (s : Segment) : ofName? s.name = some s := by
  cases s <;> decide +kernel

end Segment

end Jack.Vm
