import Jack.Subroutine
import Jack.Symbol.Kind
import Jack.Token.Basic
import Jack.Vm.Instruction

/-!
# Actions

What the grammar of classes asks for while it is followed: taking tokens, growing the parse tree,
declaring names and producing code. Actions name variables and callees; the meaning of the names is
settled where the actions are carried out.
-/

namespace Jack

/-- The nonterminals that have a node in the parse tree. -/
inductive Node where
  | wholeClass | classVarDec | subroutineDec | parameterList | subroutineBody | varDec
  | statements | letStatement | ifStatement | whileStatement | doStatement | returnStatement
  | expression | term | expressionList
  deriving DecidableEq, Repr

/-- The tag of a nonterminal. -/
def Node.tag : Node → String
  | .wholeClass => "class"
  | .classVarDec => "classVarDec"
  | .subroutineDec => "subroutineDec"
  | .parameterList => "parameterList"
  | .subroutineBody => "subroutineBody"
  | .varDec => "varDec"
  | .statements => "statements"
  | .letStatement => "letStatement"
  | .ifStatement => "ifStatement"
  | .whileStatement => "whileStatement"
  | .doStatement => "doStatement"
  | .returnStatement => "returnStatement"
  | .expression => "expression"
  | .term => "term"
  | .expressionList => "expressionList"

/-- A binary operator of the language. -/
inductive BinaryOp where
  /-- An operator that the machine has. -/
  | native (op : Vm.Op)
  /-- Multiplication, a library routine. -/
  | multiply
  /-- Division, a library routine. -/
  | divide
  deriving DecidableEq, Repr

/-- The binary operator that a symbol writes. -/
def BinaryOp.ofSymbol? (c : Char) : Option BinaryOp :=
  if c = '+' then some (.native .add)
  else if c = '-' then some (.native .sub)
  else if c = '&' then some (.native .and)
  else if c = '|' then some (.native .or)
  else if c = '<' then some (.native .lt)
  else if c = '>' then some (.native .gt)
  else if c = '=' then some (.native .eq)
  else if c = '*' then some .multiply
  else if c = '/' then some .divide
  else none

/-- The unary operator that a symbol writes. -/
def unaryOp? (c : Char) : Option Vm.Op :=
  if c = '-' then some .neg
  else if c = '~' then some .not
  else if c = '^' then some .shiftLeft
  else if c = '#' then some .shiftRight
  else none

/-- The subroutine that a call names. -/
inductive Callee where
  /-- A method of the current class, called on the current object. -/
  | own (name : String)
  /-- A subroutine of what stands before the dot, a variable or a class. -/
  | member (owner name : String)
  deriving DecidableEq, Repr

/-- One thing to do. -/
inductive Action where
  /-- Takes the current token. -/
  | consume (token : Token)
  | openNode (node : Node)
  | closeNode (node : Node)
  | enterClass (name : String)
  | declare (name type : String) (kind : SymbolKind) (span : Span)
  /-- Starts a subroutine: its names are its own. -/
  | enterSubroutine (kind : SubroutineKind)
  /-- Produces the head of a subroutine, whose variables are all declared. -/
  | enterBody (kind : SubroutineKind) (name : String)
  /-- Reports a subroutine that ends without a return. -/
  | missingReturn (kind : SubroutineKind) (name : String) (span : Span)
  /-- Returns the new object at the end of a constructor. -/
  | implicitReturn (name : String)
  | emit (i : Vm.Instruction)
  | integer (value : Nat) (span : Span)
  | string (body : String) (span : Span)
  /-- Produces the code for the current object. -/
  | thisObject (span : Span)
  /-- Checks that a variable is declared. -/
  | require (name : String) (span : Span)
  | load (name : String) (span : Span)
  | store (name : String) (span : Span)
  | operate (op : BinaryOp)
  /-- Gives the next number to the labels of a branch or a loop. -/
  | openLabels
  /-- Leaves for the second arm of a branch unless the condition holds. -/
  | branchTest
  /-- Ends the first arm of a branch. -/
  | branchElse
  | branchEnd
  | loopTop
  /-- Leaves a loop unless the condition holds. -/
  | loopTest
  | loopEnd
  /-- Produces the code that passes the object a call is made on. -/
  | receiver (callee : Callee) (span : Span)
  /-- Checks the number of arguments so far. -/
  | countArgument (count : Nat) (span : Span)
  | call (callee : Callee) (count : Nat) (span : Span)
  deriving DecidableEq, Repr

end Jack
