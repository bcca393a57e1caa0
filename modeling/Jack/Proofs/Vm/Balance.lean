import Jack.Proofs.Compile.Translation

/-!
# The stack discipline of compiled code

Code is replayed in the order in which it stands, whatever its jumps do, and the depth of the stack
is followed through the effects of the instructions. The code of an expression adds one word to any
depth, that of a statement starts and ends at depth zero, and no instruction finds fewer words than
it takes.
-/

namespace Jack.Vm

/-- How many words an instruction takes from the stack. -/
def Instruction.operands : Instruction → Nat
  | .push _ _ | .label _ | .goto _ | .function _ _ => 0
  | .pop _ _ | .ifGoto _ | .ret => 1
  | .arithmetic op => op.arity
  | .call _ args => args.toNat

/-- The depth of the stack after instructions, from an empty one on. -/
def depth : List Instruction → Int
  | [] => 0
  | i :: is => i.stackEffect + depth is

/-- The depth behind two parts is the sum of what each part adds. -/
lemma depth_append (is js : List Instruction) : depth (is ++ js) = depth is + depth js := by
  induction is with
  | nil => simp [depth]
  | cons i is ih => simp [depth, ih, Int.add_assoc]

/-- May an instruction stand at a depth? It finds its operands; jumps and their targets stand at
statements, where the stack is empty, and a return takes the last word. -/
def Instruction.FitsAt (d : Int) : Instruction → Prop
  | .label _ | .goto _ | .function _ _ => d = 0
  | .ifGoto _ | .ret => d = 1
  | .push _ _ => 0 ≤ d
  | .pop _ _ => 1 ≤ d
  | .arithmetic op => op.arity ≤ d
  | .call _ args => args.toNat ≤ d

/-- Instructions fit one after another from depth `d` on, and end at depth `d'`. -/
def Balanced (d : Int) : List Instruction → Int → Prop
  | [], d' => d = d'
  | i :: is, d' => i.FitsAt d ∧ Balanced (d + i.stackEffect) is d'

/-- An instruction that fits finds its operands on the stack. -/
lemma Instruction.FitsAt.operands_le {d : Int} {i : Instruction} (h : i.FitsAt d) :
    i.operands ≤ d := by
  cases i with
  | push segment index => exact h
  | pop segment index => exact h
  | arithmetic op => exact h
  | label name => exact Int.le_of_eq (Eq.symm h)
  | goto name => exact Int.le_of_eq (Eq.symm h)
  | ifGoto name => exact Int.le_of_eq (Eq.symm h)
  | function name locals => exact Int.le_of_eq (Eq.symm h)
  | call name args => exact h
  | ret => exact Int.le_of_eq (Eq.symm h)

namespace Balanced

variable {d m d' : Int} {is js : List Instruction}

/-- Code in two parts is balanced if the second goes on from where the first ends. -/
lemma append (h : Balanced d is m) (k : Balanced m js d') : Balanced d (is ++ js) d' := by
  induction is generalizing d with
  | nil =>
    obtain rfl : d = m := h
    exact k
  | cons i is ih => exact ⟨h.1, ih h.2⟩

/-- The depth at the end may be written in another way. -/
lemma ending (h : Balanced d is m) (hm : m = d') : Balanced d is d' := hm ▸ h

/-- The depth at the end is the sum of the effects. -/
lemma eq_add_depth (h : Balanced d is d') : d' = d + depth is := by
  induction is generalizing d with
  | nil =>
    obtain rfl : d = d' := h
    simp [depth]
  | cons i is ih =>
    rw [ih h.2]
    simp [depth]
    omega

/-- Every instruction fits at the depth before it. -/
lemma fitsAt {before after : List Instruction} {i : Instruction}
    (h : Balanced d (before ++ i :: after) d') : i.FitsAt (d + depth before) := by
  induction before generalizing d with
  | nil => simpa [depth] using h.1
  | cons j before ih =>
    have hj := ih h.2
    simpa [depth, Int.add_assoc] using hj

/-- A push leaves one word more. -/
lemma push (s : Segment) (i : UInt16) (hd : 0 ≤ d) (h : d' = d + 1) : Balanced d [.push s i] d' :=
  ⟨hd, h.symm⟩

/-- A pop needs a word and takes it away. -/
lemma pop (s : Segment) (i : UInt16) (hd : 1 ≤ d) (h : d' = d - 1) : Balanced d [.pop s i] d' :=
  ⟨hd, h.symm⟩

/-- A call needs its arguments and leaves its result in their place. -/
lemma call (name : String) {n : Nat} (hn : n ≤ Grammar.maxWord) (hd : n ≤ d)
    (h : d' = d - n + 1) : Balanced d [.call name n.toUInt16] d' := by
  have hw : n.toUInt16.toNat = n := Grammar.toNat_toUInt16 hn
  refine ⟨?_, ?_⟩
  · simp only [Instruction.FitsAt, hw]
    exact hd
  · simp only [Balanced, Instruction.stackEffect, hw]
    omega

/-- An operation needs its operands and leaves its result in their place. -/
lemma arithmetic (op : Op) (hd : op.arity ≤ d) (h : d' = d - op.arity + 1) :
    Balanced d [.arithmetic op] d' := by
  refine ⟨hd, ?_⟩
  simp only [Balanced, Instruction.stackEffect]
  omega

end Balanced

end Jack.Vm

namespace Jack.Grammar

open Vm

variable {c : Context} {d : Int}

/-! ## Expressions -/

/-- Loading a declared variable leaves one word more. -/
lemma Context.balanced_load {name : String} (h : c.Declared name) (hd : 0 ≤ d) :
    Balanced d (c.load name) (d + 1) := by
  obtain ⟨s, hs⟩ := exists_lookup? h
  rw [load, hs]
  exact .push _ _ hd rfl

/-- Storing into a declared variable takes one word away. -/
lemma Context.balanced_store {name : String} (h : c.Declared name) :
    Balanced 1 (c.store name) 0 := by
  obtain ⟨s, hs⟩ := exists_lookup? h
  rw [store, hs]
  exact .pop _ _ (by omega) rfl

/-- The object a call is made on is one word where it counts as an argument. -/
lemma Context.balanced_receiver (callee : Callee) (hd : 0 ≤ d) :
    Balanced d (c.receiver callee) (d + c.implicitArgs callee) := by
  cases callee with
  | own name => exact .push _ _ hd rfl
  | member owner name =>
    rw [receiver, implicitArgs]
    split
    · next h => exact balanced_load h hd
    · next h =>
      rw [load, (lookup?_eq_none_iff c owner).2 h]
      simp [Vm.Balanced]

/-- A word that is a term leaves one word more. -/
lemma TermWord.balanced (w : TermWord) (hd : 0 ≤ d) : Balanced d w.code (d + 1) := by
  cases w with
  | trueWord =>
    have hn : Balanced (d + 1) [.arithmetic .not] (d + 1) :=
      .arithmetic _ (by simp only [Op.arity]; omega) (by simp only [Op.arity]; omega)
    exact Balanced.append (.push .constant 0 hd rfl) hn
  | falseWord => exact .push _ _ hd rfl
  | nullWord => exact .push _ _ hd rfl
  | thisWord => exact .push _ _ hd rfl

/-- Building a string leaves one word more. -/
lemma balanced_stringCode (runtime : Runtime) (body : String) (hd : 0 ≤ d) :
    Balanced d (stringCode runtime body) (d + 1) := by
  have hnew : Balanced (d + 1) [.call runtime.stringNew 1] (d + 1) :=
    .call (n := 1) _ (by decide) (by omega) (by omega)
  have hadd : Balanced (d + 2) [.call runtime.stringAppend 2] (d + 1) :=
    .call (n := 2) _ (by decide) (by omega) (by omega)
  have hchars : ∀ cs : List Char, Balanced (d + 1) (cs.flatMap fun char =>
      [.push .constant char.toNat.toUInt16, .call runtime.stringAppend 2]) (d + 1) := by
    intro cs
    induction cs with
    | nil => rfl
    | cons char cs ih =>
      have hp : Balanced (d + 1) [.push .constant char.toNat.toUInt16] (d + 2) :=
        .push _ _ (by omega) (by omega)
      exact (hp.append hadd).append ih
  exact ((Balanced.push _ _ hd rfl).append hnew).append (hchars _)

/-- An operator leaves one word in the place of two. -/
lemma Operator.balanced (runtime : Runtime) (op : Operator) (hd : 0 ≤ d) :
    Balanced (d + 2) [op.instruction runtime] (d + 1) := by
  cases op with
  | times => exact .call (n := 2) _ (by decide) (by omega) (by omega)
  | divide => exact .call (n := 2) _ (by decide) (by omega) (by omega)
  | _ => exact .arithmetic _ (by simp only [Op.arity]; omega) (by simp only [Op.arity]; omega)

/-- The index and the array become the word they lead to. -/
lemma balanced_readElement (hd : 0 ≤ d) : Balanced (d + 2) readElement (d + 1) := by
  have ha : Balanced (d + 2) [.arithmetic .add] (d + 1) :=
    .arithmetic _ (by simp only [Op.arity]; omega) (by simp only [Op.arity]; omega)
  have hp : Balanced (d + 1) [.pop .pointer 1] d := .pop _ _ (by omega) (by omega)
  exact (ha.append hp).append (.push _ _ hd rfl)

/-- A unary operator leaves one word in the place of one. -/
lemma UnaryOp.balanced (op : UnaryOp) (hd : 0 ≤ d) :
    Balanced (d + 1) [.arithmetic op.op] (d + 1) := by
  have ha : op.op.arity = 1 := by cases op <;> rfl
  exact .arithmetic _ (by omega) (by omega)

/-- The object and the arguments of a call become its value. -/
lemma balanced_call {callee : Callee} {count : Nat} {args : List Instruction}
    (ha : ∀ e : Int, 0 ≤ e → Balanced e args (e + count))
    (hw : count + c.implicitArgs callee ≤ maxWord) (hd : 0 ≤ d) :
    Balanced d (c.receiver callee ++ args ++ [c.invocation callee count]) (d + 1) := by
  have hr := Context.balanced_receiver (c := c) callee hd
  have hi : Balanced (d + c.implicitArgs callee + count) [c.invocation callee count] (d + 1) :=
    .call _ hw (by omega) (by omega)
  exact (hr.append (ha _ (by omega))).append hi

mutual

/-- A term leaves one word more. -/
lemma Term.balanced (t : Term) {d : Int} (h : t.Valid c) (hd : 0 ≤ d) :
    Balanced d (t.code c) (d + 1) := by
  cases t with
  | integer value => exact .push _ _ hd rfl
  | string body => exact balanced_stringCode _ _ hd
  | word w => exact w.balanced hd
  | var name => exact Context.balanced_load h hd
  | element name index =>
    have hi := Expr.balanced index h.2 hd
    -- The index stays on the stack below the array.
    have hl : Balanced (d + 1) (c.load name) (d + 2) :=
      (Context.balanced_load h.1 (by omega)).ending (by omega)
    exact (hi.append hl).append (balanced_readElement hd)
  | call callee args => exact balanced_call (fun e he => Args.balanced args h.1 he) h.2 hd
  | group inner => exact Expr.balanced inner h hd
  | unary op operand => exact (Term.balanced operand h hd).append (op.balanced hd)

/-- An expression leaves one word more. -/
lemma Expr.balanced (x : Expr) {d : Int} (h : x.Valid c) (hd : 0 ≤ d) :
    Balanced d (x.code c) (d + 1) := by
  cases x with
  | mk first rest => exact (Term.balanced first h.1 hd).append (Tail.balanced rest h.2 hd)

/-- The rest of an expression leaves one word in the place of its first operand. -/
lemma Tail.balanced (x : Tail) {d : Int} (h : x.Valid c) (hd : 0 ≤ d) :
    Balanced (d + 1) (x.code c) (d + 1) := by
  cases x with
  | nil => rfl
  | cons op operand rest =>
    have ho : Balanced (d + 1) (operand.code c) (d + 2) :=
      (Term.balanced operand h.1 (by omega)).ending (by omega)
    exact (ho.append (op.balanced _ hd)).append (Tail.balanced rest h.2 hd)

/-- Arguments leave one word each. -/
lemma Args.balanced (as : Args) {d : Int} (h : as.Valid c) (hd : 0 ≤ d) :
    Balanced d (as.code c) (d + as.length) := by
  cases as with
  | nil => exact (Int.add_zero d).symm
  | cons first rest =>
    have hf := Expr.balanced first h.1 hd
    have hr := Args.balanced rest (d := d + 1) h.2 (by omega)
    exact (hf.append hr).ending (by simp only [Args.length]; omega)

end

/-- The value of a `return` leaves one word. -/
lemma balanced_valueCode (value : Option Expr) (h : ValidValue c value) :
    Balanced 0 (valueCode c value) 1 := by
  cases value with
  | none => exact .push _ _ (by omega) rfl
  | some value => exact value.balanced h (by omega)

/-! ## Statements -/

/-- The address and the value of an assignment are taken from the stack. -/
lemma balanced_writeElement : Balanced 2 writeElement 0 := by
  have hv : Balanced 2 [.pop .temp 0] 1 := .pop _ _ (by omega) rfl
  have ha : Balanced 1 [.pop .pointer 1] 0 := .pop _ _ (by omega) rfl
  have hp : Balanced 0 [.push .temp 0] 1 := .push _ _ (by omega) rfl
  exact ((hv.append ha).append hp).append (.pop _ _ (by omega) rfl)

/-- A condition is taken from the stack by the jump that tests it. -/
lemma balanced_test (name : String) : Balanced 1 [.arithmetic .not, .ifGoto name] 0 :=
  ⟨Int.le_refl 1, rfl, rfl⟩

/-- A jump with a label behind it leaves an empty stack empty. -/
lemma balanced_mark (name other : String) : Balanced 0 [.goto name, .label other] 0 :=
  ⟨rfl, rfl, rfl⟩

/-- A label leaves an empty stack empty. -/
lemma balanced_label (name : String) : Balanced 0 [.label name] 0 := ⟨rfl, rfl⟩

mutual

/-- A statement leaves an empty stack empty. -/
lemma Statement.balanced (s : Statement) (h : s.Valid c) (n : Nat) :
    Balanced 0 (s.code c n) 0 := by
  cases s with
  | assign name value =>
    have hv := value.balanced h.2 (d := 0) (by omega)
    exact hv.append (Context.balanced_store h.1)
  | assignElement name index value =>
    have hi := index.balanced h.2.1 (d := 0) (by omega)
    have hl := Context.balanced_load h.1 (d := 1) (by omega)
    have ha : Balanced 2 [.arithmetic .add] 1 := .arithmetic _ (by decide) rfl
    -- The address stays on the stack below the value.
    have hv := value.balanced h.2.2 (d := 1) (by omega)
    exact (((hi.append hl).append ha).append hv).append balanced_writeElement
  | ifThen condition yes =>
    have hc := condition.balanced h.1 (d := 0) (by omega)
    have hy := Statements.balanced yes h.2 (n + 1)
    exact (((hc.append (balanced_test _)).append hy).append (balanced_mark _ _)).append
      (balanced_label _)
  | ifElse condition yes no =>
    have hc := condition.balanced h.1 (d := 0) (by omega)
    have hy := Statements.balanced yes h.2.1 (n + 1)
    have hn := Statements.balanced no h.2.2 (n + 1 + yes.labels)
    exact ((((hc.append (balanced_test _)).append hy).append (balanced_mark _ _)).append hn).append
      (balanced_label _)
  | loop condition body =>
    have hc := condition.balanced h.1 (d := 0) (by omega)
    have hb := Statements.balanced body h.2 (n + 1)
    exact ((((balanced_label _).append hc).append (balanced_test _)).append hb).append
      (balanced_mark _ _)
  | invoke callee args =>
    have hi := balanced_call (d := 0) (fun e he => args.balanced h.1 he) h.2 (by omega)
    exact hi.append (.pop _ _ (by omega) rfl)
  | giveBack value =>
    have hr : Balanced 1 [.ret] 0 := ⟨rfl, rfl⟩
    exact (balanced_valueCode value h).append hr

/-- Statements leave an empty stack empty. -/
lemma Statements.balanced (ss : Statements) (h : ss.Valid c) (n : Nat) :
    Balanced 0 (ss.code c n) 0 := by
  cases ss with
  | nil => rfl
  | cons first rest =>
    exact (Statement.balanced first h.1 n).append (Statements.balanced rest h.2 _)

end

/-! ## Classes -/

/-- A subroutine leaves an empty stack empty. -/
lemma Subroutine.balanced {o : Options} {k : ClassDec} {s : Subroutine} (h : s.WellFormed o k)
    (n : Nat) : Balanced 0 (s.code o k n) 0 := by
  have hp : Balanced 0 (s.prologue o k) 0 := by
    rw [prologue]
    split
    · exact ⟨Int.le_refl 0, Int.le_refl 1, Int.le_refl 1, rfl⟩
    · exact ⟨Int.le_refl 0, Int.le_refl 1, rfl⟩
    · rfl
  have hh : Balanced 0 (s.head o k) 0 := ⟨rfl, hp⟩
  have hc : Balanced 0 s.closing 0 := by
    rw [closing]
    split
    · exact ⟨Int.le_refl 0, rfl, rfl⟩
    · rfl
  exact (hh.append (s.body.balanced h.body n)).append hc

/-- Subroutines one behind the other leave an empty stack empty. -/
lemma ClassDec.balanced_codeFrom {o : Options} {k : ClassDec} {ss : List Subroutine}
    (h : ∀ s ∈ ss, s.WellFormed o k) (n : Nat) : Balanced 0 (k.codeFrom o n ss) 0 := by
  induction ss generalizing n with
  | nil => rfl
  | cons s ss ih =>
    have hs := Subroutine.balanced (h s List.mem_cons_self) n
    exact hs.append (ih (fun t ht => h t (List.mem_cons_of_mem s ht)) _)

/-- The code of a class leaves an empty stack empty. -/
lemma ClassDec.balanced {o : Options} {k : ClassDec} (h : k.WellFormed o) :
    Balanced 0 (k.code o) 0 :=
  balanced_codeFrom h.subroutines 0

end Jack.Grammar

namespace Jack

open Grammar Vm

/-- Replayed from an empty stack, the code of a class finds its operands, jumps and returns where
the stack is empty but for what they take, and leaves nothing behind. -/
theorem stack_discipline_of_produced (o : Options) (tokens : List Token)
    (h : ∃ name, (Engine.start o tokens).compileClass.1 = .ok name) :
    (∀ before i after, (Engine.start o tokens).compileClass.2.code = before ++ i :: after →
      i.operands ≤ depth before ∧
      (∀ name locals, i = .function name locals → depth before = 0) ∧
      (∀ name, i = .label name → depth before = 0) ∧
      (∀ name, i = .goto name → depth before = 0) ∧
      (∀ name, i = .ifGoto name → depth (before ++ [i]) = 0) ∧
      (i = .ret → depth before = 1)) ∧
    depth (Engine.start o tokens).compileClass.2.code = 0 := by
  obtain ⟨c, hc⟩ := Compiles.exists_derives h
  obtain ⟨hiff, hcode⟩ := hc.compiles_iff (o := o)
  have hw := hiff.1 h
  have hb := ClassDec.balanced hw
  rw [← hcode hw] at hb
  change Balanced 0 (Engine.start o tokens).compileClass.2.code 0 at hb
  constructor
  · intro before i after hi
    rw [hi] at hb
    have hf := hb.fitsAt
    rw [Int.zero_add] at hf
    refine ⟨hf.operands_le, ?_, ?_, ?_, ?_, ?_⟩
    · rintro name locals rfl
      exact hf
    · rintro name rfl
      exact hf
    · rintro name rfl
      exact hf
    · rintro name rfl
      -- The word that the jump tests is the only one there.
      have hd : depth before = 1 := hf
      have hs : depth (before ++ [Instruction.ifGoto name]) = depth before + -1 := by
        rw [depth_append]
        rfl
      omega
    · rintro rfl
      exact hf
  · have hd := hb.eq_add_depth
    omega

/-- The class that computes absolute values returns with one word on the stack. -/
theorem stack_discipline_absolute :
    (∀ before after, (Engine.start {} absolute.tokens).compileClass.2.code =
      before ++ .ret :: after → depth before = 1) ∧
    depth (Engine.start {} absolute.tokens).compileClass.2.code = 0 := by
  obtain ⟨hi, hd⟩ := stack_discipline_of_produced {} absolute.tokens compiles_absolute
  refine ⟨?_, hd⟩
  intro before after hr
  obtain ⟨-, -, -, -, -, hret⟩ := hi before .ret after hr
  exact hret rfl

end Jack
