/-!
# Operators of the stack machine

A binary operator takes the two topmost words, `x` below `y`, and leaves one; a unary operator
replaces the topmost word `y`.
-/

namespace Jack.Vm

/-- The arithmetic and logical operators. Truth is the word of all ones. -/
inductive Op where
  /-- `x + y` -/
  | add
  /-- `x - y` -/
  | sub
  /-- `-y` -/
  | neg
  /-- Is `x` equal to `y`? -/
  | eq
  /-- Is `x` greater than `y`? -/
  | gt
  /-- Is `x` less than `y`? -/
  | lt
  /-- Bitwise conjunction. -/
  | and
  /-- Bitwise disjunction. -/
  | or
  /-- Bitwise complement. -/
  | not
  /-- `y` shifted left by one bit. -/
  | shiftLeft
  /-- `y` shifted right by one bit. -/
  | shiftRight
  deriving DecidableEq, Repr

namespace Op

/-- Every operator. -/
def all : List Op :=
  [.add, .sub, .neg, .eq, .gt, .lt, .and, .or, .not, .shiftLeft, .shiftRight]

/-- The word that writes an operator. -/
def mnemonic : Op → String
  | .add => "add"
  | .sub => "sub"
  | .neg => "neg"
  | .eq => "eq"
  | .gt => "gt"
  | .lt => "lt"
  | .and => "and"
  | .or => "or"
  | .not => "not"
  | .shiftLeft => "shiftleft"
  | .shiftRight => "shiftright"

/-- The operator that a word writes. -/
def ofMnemonic? (word : String) : Option Op :=
  all.find? (·.mnemonic == word)

/-- How many words an operator takes from the stack. -/
def arity : Op → Nat
  | .neg | .not | .shiftLeft | .shiftRight => 1
  | .add | .sub | .eq | .gt | .lt | .and | .or => 2

end Op

end Jack.Vm
