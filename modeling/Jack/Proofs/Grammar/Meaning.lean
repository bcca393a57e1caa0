import Jack.Proofs.Grammar.Code
import Jack.Proofs.Grammar.Script
import Jack.Proofs.Vm.Machine

/-!
# The meaning of statements

What expressions and statements do to the memory of an activation, by recursion over the derivation
and without a stack. Operators are applied from left to right, the index of an element is evaluated
before its array is looked up, and the address that an assignment writes to is settled before its
value. Multiplication, division and strings are calls of library routines. A condition holds where
its complement is zero.
-/

namespace Jack

open Vm (World Memory Word)

namespace Vm.Memory

/-- The word of a variable. -/
def get (μ : Memory) (s : Symbol) : Word :=
  match s.kind with
  | .static => μ.statics s.index
  | .field => μ.heap (μ.this + s.index)
  | .argument => μ.arguments s.index
  | .localVar => μ.locals s.index

/-- The memory with another word in a variable. -/
def set (μ : Memory) (s : Symbol) (v : Word) : Memory :=
  match s.kind with
  | .static => { μ with statics := Function.update μ.statics s.index v }
  | .field => { μ with heap := Function.update μ.heap (μ.this + s.index) v }
  | .argument => { μ with arguments := Function.update μ.arguments s.index v }
  | .localVar => { μ with locals := Function.update μ.locals s.index v }

/-- The memory with another word at an address. -/
def poke (μ : Memory) (address v : Word) : Memory :=
  { μ with heap := Function.update μ.heap address v }

end Vm.Memory

namespace Grammar

variable (w : World) (c : Context)

/-- The value of a variable; a name that means nothing has the value zero. -/
def Context.value (name : String) (μ : Memory) : Word := ((c.lookup? name).map μ.get).getD 0

/-- The memory after an assignment to a name; a name that means nothing is not assigned to. -/
def Context.assigned (name : String) (v : Word) (μ : Memory) : Memory :=
  ((c.lookup? name).map fun s => μ.set s v).getD μ

/-- The object that a call is made on. -/
def Context.object (μ : Memory) : Callee → List Word
  | .own _ => [μ.this]
  | .member owner _ => ((c.lookup? owner).map fun s => [μ.get s]).getD []

/-- The value of the words that are terms. -/
def TermWord.eval (μ : Memory) : TermWord → Word
  | .trueWord => ~~~0
  | .falseWord => 0
  | .nullWord => 0
  | .thisWord => μ.this

/-- Appending characters to a string by the routine of the runtime. -/
def appendChars (runtime : Runtime) : List Char → Word × Memory → Word × Memory
  | [], r => r
  | char :: chars, (string, μ) =>
    appendChars runtime chars (w.apply runtime.stringAppend [string, char.toNat.toUInt16] μ)

/-- The value of a string constant: a new string, then its characters one by one. -/
def evalString (runtime : Runtime) (body : String) (μ : Memory) : Word × Memory :=
  appendChars w runtime body.toList (w.apply runtime.stringNew [body.length.toUInt16] μ)

/-- The value of an operator, which may be a routine of the runtime. -/
def Operator.eval (runtime : Runtime) (op : Operator) (x y : Word) (μ : Memory) : Word × Memory :=
  match op.meaning with
  | .native op => (op.value w.signed x y, μ)
  | .multiply => w.apply runtime.multiply [x, y] μ
  | .divide => w.apply runtime.divide [x, y] μ

mutual

/-- The value of a term, and the memory after it. -/
def Term.eval (μ : Memory) : Term → Word × Memory
  | .integer value => (value.toUInt16, μ)
  | .string body => evalString w c.options.runtime body μ
  | .word word => (word.eval μ, μ)
  | .var name => (c.value name μ, μ)
  | .element name index =>
    let (i, μ) := index.eval μ
    (μ.heap (i + c.value name μ), μ)
  | .call callee args =>
    let (vs, μ') := args.eval μ
    w.apply (c.subroutine callee) (c.object μ callee ++ vs) μ'
  | .group inner => inner.eval μ
  | .unary op operand =>
    let (y, μ) := operand.eval μ
    (op.op.value w.signed 0 y, μ)

/-- The value of an expression, and the memory behind it. -/
def Expr.eval (μ : Memory) : Expr → Word × Memory
  | .mk first rest =>
    let (x, μ) := first.eval μ
    rest.eval x μ

/-- The value of operators applied to `x` from left to right, and the memory after them. -/
def Tail.eval (x : Word) (μ : Memory) : Tail → Word × Memory
  | .nil => (x, μ)
  | .cons op operand rest =>
    let (y, μ) := operand.eval μ
    let (z, μ) := op.eval w c.options.runtime x y μ
    rest.eval z μ

/-- The values of arguments, from left to right. -/
def Args.eval (μ : Memory) : Args → List Word × Memory
  | .nil => ([], μ)
  | .cons first rest =>
    let (v, μ) := first.eval μ
    let (vs, μ) := rest.eval μ
    (v :: vs, μ)

end

/-- The value of a `return`, which is zero where none is given. -/
def evalValue (μ : Memory) : Option Expr → Word × Memory
  | none => (0, μ)
  | some value => value.eval w c μ

/-- How a run of statements ends: at its end, or with a value that is returned. -/
inductive Outcome where
  | normal
  | returned (v : Word)

/-- Does a condition hold? -/
def Holds (v : Word) : Prop := ~~~v = 0

mutual

/-- A statement ends in an outcome and leaves a memory. -/
inductive Statement.Runs : Statement → Memory → Outcome → Memory → Prop where
  | assign {name : String} {value : Expr} {μ ν : Memory} {v : Word} :
      value.eval w c μ = (v, ν) →
      Statement.Runs (.assign name value) μ .normal (c.assigned name v ν)
  | assignElement {name : String} {index value : Expr} {μ ν ξ : Memory} {i v : Word} :
      index.eval w c μ = (i, ν) → value.eval w c ν = (v, ξ) →
      Statement.Runs (.assignElement name index value) μ .normal
        (ξ.poke (i + c.value name ν) v)
  | thenYes {condition : Expr} {yes : Statements} {μ ν ξ : Memory} {v : Word} {out : Outcome} :
      condition.eval w c μ = (v, ν) → Holds v → Statements.Runs yes ν out ξ →
      Statement.Runs (.ifThen condition yes) μ out ξ
  | thenNo {condition : Expr} {yes : Statements} {μ ν : Memory} {v : Word} :
      condition.eval w c μ = (v, ν) → ¬ Holds v →
      Statement.Runs (.ifThen condition yes) μ .normal ν
  | elseYes {condition : Expr} {yes no : Statements} {μ ν ξ : Memory} {v : Word}
      {out : Outcome} :
      condition.eval w c μ = (v, ν) → Holds v → Statements.Runs yes ν out ξ →
      Statement.Runs (.ifElse condition yes no) μ out ξ
  | elseNo {condition : Expr} {yes no : Statements} {μ ν ξ : Memory} {v : Word} {out : Outcome} :
      condition.eval w c μ = (v, ν) → ¬ Holds v → Statements.Runs no ν out ξ →
      Statement.Runs (.ifElse condition yes no) μ out ξ
  | loopDone {condition : Expr} {body : Statements} {μ ν : Memory} {v : Word} :
      condition.eval w c μ = (v, ν) → ¬ Holds v →
      Statement.Runs (.loop condition body) μ .normal ν
  | loopAgain {condition : Expr} {body : Statements} {μ ν ξ ρ : Memory} {v : Word}
      {out : Outcome} :
      condition.eval w c μ = (v, ν) → Holds v → Statements.Runs body ν .normal ξ →
      Statement.Runs (.loop condition body) ξ out ρ →
      Statement.Runs (.loop condition body) μ out ρ
  | loopReturn {condition : Expr} {body : Statements} {μ ν ξ : Memory} {v r : Word} :
      condition.eval w c μ = (v, ν) → Holds v → Statements.Runs body ν (.returned r) ξ →
      Statement.Runs (.loop condition body) μ (.returned r) ξ
  | invoke {callee : Callee} {args : Args} {μ ν : Memory} {v : Word} :
      (Term.call callee args).eval w c μ = (v, ν) →
      Statement.Runs (.invoke callee args) μ .normal ν
  | giveBack {value : Option Expr} {μ ν : Memory} {v : Word} :
      evalValue w c μ value = (v, ν) →
      Statement.Runs (.giveBack value) μ (.returned v) ν

/-- Statements end in an outcome and leave a memory. -/
inductive Statements.Runs : Statements → Memory → Outcome → Memory → Prop where
  | nil {μ : Memory} : Statements.Runs .nil μ .normal μ
  | cons {first : Statement} {rest : Statements} {μ ν ξ : Memory} {out : Outcome} :
      Statement.Runs first μ .normal ν → Statements.Runs rest ν out ξ →
      Statements.Runs (.cons first rest) μ out ξ
  | stop {first : Statement} {rest : Statements} {μ ν : Memory} {v : Word} :
      Statement.Runs first μ (.returned v) ν →
      Statements.Runs (.cons first rest) μ (.returned v) ν

end

end Grammar

end Jack
