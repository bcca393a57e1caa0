import Jack.Vm.Instruction
import Mathlib.Logic.Function.Basic
import Mathlib.Tactic.Lemma

/-!
# The stack machine

One activation of a subroutine on a machine of 16-bit words. A call is one step: it takes its
arguments from the stack and gives them to the world, which answers with a value and may change
what all subroutines share. Entering and leaving a subroutine are not steps of the activation; a run
ends at a `return`.
-/

namespace Jack.Vm

/-- The words of the machine have sixteen bits. -/
abbrev Word := UInt16

/-- What a program can name: the variables of the activation and of its class, the heap, and the
address of the current object. -/
structure Memory where
  locals : Word → Word
  arguments : Word → Word
  statics : Word → Word
  heap : Word → Word
  this : Word

/-- A state of the machine inside one activation. -/
structure Machine where
  pc : Nat
  stack : List Word
  memory : Memory
  /-- The base of the segment `that`. -/
  that : Word
  temp : Word → Word

/-- What is around an activation. -/
structure World where
  /-- Are words compared, and shifted to the right, as signed numbers? -/
  signed : Bool
  /-- What a subroutine makes of its arguments, the statics and the heap: a value, and the statics
  and the heap it leaves. -/
  call : String → List Word → (Word → Word) → (Word → Word) →
    Word × (Word → Word) × (Word → Word)
  /-- What a call leaves in the first scratch word. -/
  scratch : String → Machine → Word

/-- Truth is the word of all ones. -/
def truth (b : Bool) : Word := if b then ~~~0 else 0

/-- The comparison of words, with a sign or without. -/
def less (signed : Bool) (x y : Word) : Bool :=
  if signed then decide (x.toInt16 < y.toInt16) else decide (x < y)

/-- The value of an operator; a unary one looks at `y` only. -/
def Op.value (signed : Bool) (x y : Word) : Op → Word
  | .add => x + y
  | .sub => x - y
  | .neg => -y
  | .eq => truth (x = y)
  | .gt => truth (less signed y x)
  | .lt => truth (less signed x y)
  | .and => x &&& y
  | .or => x ||| y
  | .not => ~~~y
  | .shiftLeft => y <<< 1
  | .shiftRight => if signed then (y.toInt16 >>> 1).toUInt16 else y >>> 1

/-- Calls a subroutine: its value, and the memory it leaves. -/
def World.apply (w : World) (name : String) (args : List Word) (μ : Memory) : Word × Memory :=
  let (value, statics, heap) := w.call name args μ.statics μ.heap
  (value, { μ with statics := statics, heap := heap })

namespace Machine

/-- The word that a segment has at an index. -/
def read? (m : Machine) (s : Segment) (i : Word) : Option Word :=
  match s with
  | .constant => some i
  | .argument => some (m.memory.arguments i)
  | .localVar => some (m.memory.locals i)
  | .static => some (m.memory.statics i)
  | .thisField => some (m.memory.heap (m.memory.this + i))
  | .thatCell => some (m.memory.heap (m.that + i))
  | .pointer => if i = 0 then some m.memory.this else if i = 1 then some m.that else none
  | .temp => some (m.temp i)

/-- The machine with a word written to a segment, where the segment can be written to. -/
def write? (m : Machine) (s : Segment) (i v : Word) : Option Machine :=
  let μ := m.memory
  match s with
  | .constant => none
  | .argument => some { m with memory := { μ with arguments := Function.update μ.arguments i v } }
  | .localVar => some { m with memory := { μ with locals := Function.update μ.locals i v } }
  | .static => some { m with memory := { μ with statics := Function.update μ.statics i v } }
  | .thisField =>
    some { m with memory := { μ with heap := Function.update μ.heap (μ.this + i) v } }
  | .thatCell =>
    some { m with memory := { μ with heap := Function.update μ.heap (m.that + i) v } }
  | .pointer =>
    if i = 0 then some { m with memory := { μ with this := v } }
    else if i = 1 then some { m with that := v }
    else none
  | .temp => some { m with temp := Function.update m.temp i v }

/-- The machine at the next instruction, with another stack. -/
def next (m : Machine) (stack : List Word) : Machine := { m with pc := m.pc + 1, stack := stack }

/-- The machine at another instruction, with another stack. -/
def jump (m : Machine) (stack : List Word) (pc : Nat) : Machine :=
  { m with pc := pc, stack := stack }

end Machine

/-- Where a label stands in a program. -/
def target? (program : List Instruction) (name : String) : Option Nat :=
  program.findIdx? (· = .label name)

/-- The labels of a program, in order. -/
def labelNames (program : List Instruction) : List String :=
  program.filterMap fun
    | .label name => some name
    | _ => none

/-- Carries out an instruction. -/
def exec? (w : World) (program : List Instruction) (m : Machine) : Instruction → Option Machine
  | .push s i => (m.read? s i).map fun v => m.next (v :: m.stack)
  | .pop s i =>
    match m.stack with
    | v :: stack => (m.next stack).write? s i v
    | [] => none
  | .arithmetic op =>
    match op.arity, m.stack with
    | 1, y :: stack => some (m.next (op.value w.signed 0 y :: stack))
    | 2, y :: x :: stack => some (m.next (op.value w.signed x y :: stack))
    | _, _ => none
  | .label _ => some (m.next m.stack)
  | .goto name => (target? program name).map (m.jump m.stack)
  | .ifGoto name =>
    match m.stack with
    | v :: stack =>
      if v ≠ 0 then (target? program name).map (m.jump stack) else some (m.next stack)
    | [] => none
  | .call name n =>
    if n.toNat ≤ m.stack.length then
      let (v, μ) := w.apply name (m.stack.take n.toNat).reverse m.memory
      some { m.next (v :: m.stack.drop n.toNat) with
        memory := μ
        temp := Function.update m.temp 0 (w.scratch name m) }
    else none
  | .function _ _ => none
  | .ret => none

/-- One step of the machine, where there is an instruction that can be carried out. -/
def step? (w : World) (program : List Instruction) (m : Machine) : Option Machine :=
  program[m.pc]?.bind (exec? w program m)

/-- A machine gets to a state in any number of steps. -/
inductive Reaches (w : World) (program : List Instruction) : Machine → Machine → Prop where
  | refl (m : Machine) : Reaches w program m m
  | head {m n k : Machine} : step? w program m = some n → Reaches w program n k →
      Reaches w program m k

/-- Reaching carries over. -/
lemma Reaches.trans {w : World} {program : List Instruction} {m n k : Machine}
    (h : Reaches w program m n) (h' : Reaches w program n k) : Reaches w program m k := by
  induction h with
  | refl m => exact h'
  | head hs _ ih => exact .head hs (ih h')

/-- What is reached behind an instruction is reached from the instruction. -/
lemma Reaches.next {w : World} {program : List Instruction} {m n k : Machine} {x : Instruction}
    (hx : program[m.pc]? = some x) (he : exec? w program m x = some n)
    (h : Reaches w program n k) : Reaches w program m k := by
  refine .head ?_ h
  rw [step?, hx]
  exact he

end Jack.Vm
