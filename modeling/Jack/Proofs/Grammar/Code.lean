import Jack.Compile.Engine
import Jack.Proofs.Grammar.Rules

/-!
# The code of a derivation

The translation of classes by recursion over their derivations. The code of an expression leaves
one word on the stack, that of a statement none. Branches and loops are numbered in the order in
which they start: each takes its number before its condition and its statements.
-/

namespace Jack.Grammar

open Vm (Instruction)

/-- The instruction for a binary operator; multiplication and division are routines. -/
def Operator.instruction (runtime : Runtime) : Operator → Instruction
  | .plus => .arithmetic .add
  | .minus => .arithmetic .sub
  | .and => .arithmetic .and
  | .or => .arithmetic .or
  | .less => .arithmetic .lt
  | .greater => .arithmetic .gt
  | .equal => .arithmetic .eq
  | .times => .call runtime.multiply 2
  | .divide => .call runtime.divide 2

/-- The code of a reserved word; truth is the word of all ones. -/
def TermWord.code : TermWord → List Instruction
  | .trueWord => [.push .constant 0, .arithmetic .not]
  | .falseWord => [.push .constant 0]
  | .nullWord => [.push .constant 0]
  | .thisWord => [.push .pointer 0]

/-- The code of a string constant: a new string, then its characters one by one. -/
def stringCode (runtime : Runtime) (body : String) : List Instruction :=
  [.push .constant body.length.toUInt16, .call runtime.stringNew 1] ++
    body.toList.flatMap fun char =>
      [.push .constant char.toNat.toUInt16, .call runtime.stringAppend 2]

namespace Context

/-- The code that pushes a variable. -/
def load (c : Context) (name : String) : List Instruction :=
  match c.lookup? name with
  | some s => [.push s.kind.segment s.index]
  | none => []

/-- The code that pops into a variable. -/
def store (c : Context) (name : String) : List Instruction :=
  match c.lookup? name with
  | some s => [.pop s.kind.segment s.index]
  | none => []

/-- The code that passes the object a call is made on: the current one, the one in a variable, or
none where a class stands before the dot. -/
def receiver (c : Context) : Callee → List Instruction
  | .own _ => [.push .pointer 0]
  | .member owner _ => c.load owner

/-- The full name of the subroutine that a call goes to. -/
def subroutine (c : Context) : Callee → String
  | .own name => c.className ++ "." ++ name
  | .member owner name =>
    match c.lookup? owner with
    | some s => s.type ++ "." ++ name
    | none => owner ++ "." ++ name

/-- The call of a subroutine after `count` arguments have been passed. -/
def invocation (c : Context) (callee : Callee) (count : Nat) : Instruction :=
  .call (c.subroutine callee) (count + c.implicitArgs callee).toUInt16

end Context

/-- The code that reads an element, after its index and the array. -/
def readElement : List Instruction :=
  [.arithmetic .add, .pop .pointer 1, .push .thatCell 0]

/-- The code that writes an element, after its address and the value. -/
def writeElement : List Instruction :=
  [.pop .temp 0, .pop .pointer 1, .push .temp 0, .pop .thatCell 0]

mutual

/-- The code of a term leaves its value on the stack. -/
def Term.code (c : Context) : Term → List Instruction
  | .integer value => [.push .constant value.toUInt16]
  | .string body => stringCode c.options.runtime body
  | .word w => w.code
  | .var name => c.load name
  | .element name index => index.code c ++ c.load name ++ readElement
  | .call callee args => c.receiver callee ++ args.code c ++ [c.invocation callee args.length]
  | .group inner => inner.code c
  | .unary op operand => operand.code c ++ [.arithmetic op.op]

/-- The code of an expression: its first operand, and then the rest. -/
def Expr.code (c : Context) : Expr → List Instruction
  | .mk first rest => first.code c ++ rest.code c

/-- The code of operators; each follows its right operand. -/
def Tail.code (c : Context) : Tail → List Instruction
  | .nil => []
  | .cons op operand rest =>
    operand.code c ++ [op.instruction c.options.runtime] ++ rest.code c

/-- The code of arguments pushes them in order. -/
def Args.code (c : Context) : Args → List Instruction
  | .nil => []
  | .cons first rest => first.code c ++ rest.code c

end

/-- The code of what a return statement returns, zero if there is nothing. -/
def valueCode (c : Context) : Option Expr → List Instruction
  | none => [.push .constant 0]
  | some value => value.code c

mutual

/-- How many branches and loops a statement has. -/
def Statement.labels : Statement → Nat
  | .assign _ _ => 0
  | .assignElement _ _ _ => 0
  | .ifThen _ yes => 1 + yes.labels
  | .ifElse _ yes no => 1 + yes.labels + no.labels
  | .loop _ body => 1 + body.labels
  | .invoke _ _ => 0
  | .giveBack _ => 0

/-- How many numbers of branches and loops statements use up. -/
def Statements.labels : Statements → Nat
  | .nil => 0
  | .cons first rest => first.labels + rest.labels

end

mutual

/-- The code of a statement whose branches and loops are numbered from `n` on. -/
def Statement.code (c : Context) (n : Nat) : Statement → List Instruction
  | .assign name value => value.code c ++ c.store name
  | .assignElement name index value =>
    index.code c ++ c.load name ++ [.arithmetic .add] ++ value.code c ++ writeElement
  | .ifThen condition yes =>
    condition.code c ++ [.arithmetic .not, .ifGoto (Engine.branchFalse n)] ++
      yes.code c (n + 1) ++ [.goto (Engine.branchEnd n), .label (Engine.branchFalse n)] ++
      [.label (Engine.branchEnd n)]
  | .ifElse condition yes no =>
    condition.code c ++ [.arithmetic .not, .ifGoto (Engine.branchFalse n)] ++
      yes.code c (n + 1) ++ [.goto (Engine.branchEnd n), .label (Engine.branchFalse n)] ++
      no.code c (n + 1 + yes.labels) ++ [.label (Engine.branchEnd n)]
  | .loop condition body =>
    [.label (Engine.loopTop n)] ++ condition.code c ++
      [.arithmetic .not, .ifGoto (Engine.loopEnd n)] ++ body.code c (n + 1) ++
      [.goto (Engine.loopTop n), .label (Engine.loopEnd n)]
  | .invoke callee args =>
    c.receiver callee ++ args.code c ++ [c.invocation callee args.length] ++ [.pop .temp 0]
  | .giveBack value => valueCode c value ++ [.ret]

/-- The code of statements whose labels start from a number. -/
def Statements.code (c : Context) (n : Nat) : Statements → List Instruction
  | .nil => []
  | .cons first rest => first.code c n ++ rest.code c (n + first.labels)

end

namespace Subroutine

/-- The code at the head of a subroutine: a constructor makes its object, a method takes it from its
first argument. -/
def prologue (o : Options) (c : ClassDec) (s : Subroutine) : List Instruction :=
  match s.kind with
  | .constructor =>
    [.push .constant (Variable.count .field c.declared).toUInt16, .call o.runtime.alloc 1,
      .pop .pointer 0]
  | .method => [.push .argument 0, .pop .pointer 0]
  | .function => []

/-- The code of a subroutine in front of its body. -/
def head (o : Options) (c : ClassDec) (s : Subroutine) : List Instruction :=
  .function (c.name ++ "." ++ s.name) (Variable.count .localVar s.written).toUInt16 ::
    s.prologue o c

/-- The end of a subroutine, after its statements: a constructor returns its object where its last
statement does not return. -/
def closing (s : Subroutine) : List Instruction :=
  if s.kind = .constructor ∧ s.body.endsInReturn = false then [.push .pointer 0, .ret] else []

/-- The code of a subroutine whose branches and loops are numbered from `n` on. -/
def code (o : Options) (c : ClassDec) (n : Nat) (s : Subroutine) : List Instruction :=
  s.head o c ++ s.body.code (s.context o c) n ++ s.closing

end Subroutine

/-- The code of subroutines whose labels start from a number. -/
def ClassDec.codeFrom (o : Options) (c : ClassDec) (n : Nat) : List Subroutine → List Instruction
  | [] => []
  | s :: ss => s.code o c n ++ c.codeFrom o (n + s.body.labels) ss

/-- The code of a class is that of its subroutines. -/
def ClassDec.code (o : Options) (c : ClassDec) : List Instruction :=
  c.codeFrom o 0 c.subroutines

end Jack.Grammar
