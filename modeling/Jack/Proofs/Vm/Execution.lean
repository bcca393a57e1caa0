import Jack.Proofs.Compile.Effect
import Jack.Proofs.Grammar.Meaning

/-!
# Code in a program

Where the code of an expression stands in a program, a run through it adds one word to the stack and
does to the memory what the expression means. The scratch words and `pointer 1` may be anything
before and after: what an expression keeps for itself, it keeps on the stack.
-/

namespace Jack.Vm

variable {w : World} {program code code' : List Instruction}

/-- Code stands in a program from a place on. -/
def Sits (program : List Instruction) (i : Nat) (code : List Instruction) : Prop :=
  ∃ before after, program = before ++ (code ++ after) ∧ before.length = i

namespace Sits

variable {i : Nat} {x : Instruction}

/-- Where code in two parts sits, the first part sits. -/
lemma left (h : Sits program i (code ++ code')) : Sits program i code := by
  obtain ⟨before, after, rfl, hi⟩ := h
  exact ⟨before, code' ++ after, by simp, hi⟩

/-- Where code in two parts sits, the second part sits behind the first. -/
lemma right (h : Sits program i (code ++ code')) : Sits program (i + code.length) code' := by
  obtain ⟨before, after, rfl, rfl⟩ := h
  exact ⟨before ++ code, after, by simp, by simp⟩

/-- Where code sits, its first instruction stands. -/
lemma head (h : Sits program i (x :: code)) : program[i]? = some x := by
  obtain ⟨before, after, rfl, rfl⟩ := h
  simp

/-- Where code sits, the rest of it sits one further on. -/
lemma tail (h : Sits program i (x :: code)) : Sits program (i + 1) code := by
  have hx : Sits program i ([x] ++ code) := h
  exact hx.right

end Sits

/-- From one place, stack and memory a run gets to others, whatever the scratch words and `pointer
1` are. -/
def Leads (w : World) (program : List Instruction) (i : Nat) (s : List Word) (μ : Memory) (j : Nat)
    (t : List Word) (ν : Memory) : Prop :=
  ∀ that temp, ∃ that' temp', Reaches w program ⟨i, s, μ, that, temp⟩ ⟨j, t, ν, that', temp'⟩

namespace Leads

variable {i j k : Nat} {s t u : List Word} {μ ν ξ : Memory} {x : Instruction} {name : String}

/-- Every place leads to itself. -/
lemma refl : Leads w program i s μ i s μ := by
  intro that temp
  exact ⟨that, temp, .refl _⟩

/-- Leading on carries over. -/
lemma trans (h : Leads w program i s μ j t ν) (h' : Leads w program j t ν k u ξ) :
    Leads w program i s μ k u ξ := by
  intro that temp
  obtain ⟨that', temp', hr⟩ := h that temp
  obtain ⟨that'', temp'', hr'⟩ := h' that' temp'
  exact ⟨that'', temp'', hr.trans hr'⟩

/-- An instruction leads on if it does so whatever the base of `that` and the `temp` segment hold.
-/
lemma one (hx : program[i]? = some x)
    (h : ∀ that temp, ∃ that' temp',
      exec? w program ⟨i, s, μ, that, temp⟩ x = some ⟨j, t, ν, that', temp'⟩) :
    Leads w program i s μ j t ν := by
  intro that temp
  obtain ⟨that', temp', he⟩ := h that temp
  exact ⟨that', temp', .next hx he (.refl _)⟩

/-- A label leads to what stands behind it. -/
lemma label (hx : program[i]? = some (.label name)) : Leads w program i s μ (i + 1) s μ :=
  one hx fun that temp => ⟨that, temp, rfl⟩

/-- A jump leads to its label. -/
lemma goto (hx : program[i]? = some (.goto name)) (hk : target? program name = some k) :
    Leads w program i s μ k s μ := by
  refine one hx fun that temp => ⟨that, temp, ?_⟩
  simp [exec?, hk, Machine.jump]

/-- Where a condition holds, the test of its complement leads on. -/
lemma test_holds {v : Word} (hs : Sits program i [.arithmetic .not, .ifGoto name])
    (hv : Grammar.Holds v) : Leads w program i (v :: s) μ (i + 2) s μ := by
  have hn : Leads w program i (v :: s) μ (i + 1) (~~~v :: s) μ :=
    one hs.head fun that temp => ⟨that, temp, rfl⟩
  have hg : Leads w program (i + 1) (~~~v :: s) μ (i + 2) s μ := by
    refine one hs.tail.head fun that temp => ⟨that, temp, ?_⟩
    have h0 : ~~~v = 0 := hv
    simp [exec?, h0, Machine.next]
  exact hn.trans hg

/-- Where a condition does not hold, the test of its complement leads to the label. -/
lemma test_fails {v : Word} (hs : Sits program i [.arithmetic .not, .ifGoto name])
    (hk : target? program name = some k) (hv : ¬ Grammar.Holds v) :
    Leads w program i (v :: s) μ k s μ := by
  have hn : Leads w program i (v :: s) μ (i + 1) (~~~v :: s) μ :=
    one hs.head fun that temp => ⟨that, temp, rfl⟩
  have hg : Leads w program (i + 1) (~~~v :: s) μ k s μ := by
    refine one hs.tail.head fun that temp => ⟨that, temp, ?_⟩
    have h0 : ~~~v ≠ 0 := hv
    simp [exec?, h0, hk, Machine.jump]
  exact hn.trans hg

end Leads

/-- Wherever code stands, a run goes through it with this effect on the stack and the memory. -/
def Executes (w : World) (program code : List Instruction) (s : List Word) (μ : Memory)
    (t : List Word) (ν : Memory) : Prop :=
  ∀ i, Sits program i code → Leads w program i s μ (i + code.length) t ν

namespace Executes

variable {s t u : List Word} {μ ν ξ : Memory}

/-- Empty code does nothing. -/
lemma nil : Executes w program [] s μ s μ := by
  intro i _
  exact .refl

/-- Code in two parts does what one part and then the other does. -/
lemma append (h : Executes w program code s μ t ν) (h' : Executes w program code' t ν u ξ) :
    Executes w program (code ++ code') s μ u ξ := by
  intro i hs
  rw [List.length_append, ← Nat.add_assoc]
  exact (h i hs.left).trans (h' _ hs.right)

/-- What an evaluation comes to is what is on the stack. -/
lemma of_eval {r : Word × Memory} {v : Word} (h : Executes w program code s μ (r.1 :: s) r.2)
    (he : r = (v, ν)) : Executes w program code s μ (v :: s) ν := by
  subst he
  exact h

/-- An instruction is code that leads to its end. -/
lemma one {x : Instruction}
    (h : ∀ i that temp, ∃ that' temp',
      exec? w program ⟨i, s, μ, that, temp⟩ x = some ⟨i + 1, t, ν, that', temp'⟩) :
    Executes w program [x] s μ t ν := by
  intro i hs
  exact .one hs.head (h i)

/-- A constant is pushed. -/
lemma constant (v : Word) : Executes w program [.push .constant v] s μ (v :: s) μ :=
  one fun _ that temp => ⟨that, temp, rfl⟩

/-- The object is pushed. -/
lemma this : Executes w program [.push .pointer 0] s μ (μ.this :: s) μ :=
  one fun _ that temp => ⟨that, temp, rfl⟩

/-- A word on the stack is dropped. -/
lemma discard (v : Word) : Executes w program [.pop .temp 0] (v :: s) μ s μ :=
  one fun _ that temp => ⟨that, Function.update temp 0 v, rfl⟩

/-- An operation of one operand puts its value in the place of the operand. -/
lemma unary {op : Op} (h : op.arity = 1) (y : Word) :
    Executes w program [.arithmetic op] (y :: s) μ (op.value w.signed 0 y :: s) μ := by
  refine one fun _ that temp => ⟨that, temp, ?_⟩
  simp [exec?, h, Machine.next]

/-- An operation of two operands puts its value in their place. -/
lemma binary {op : Op} (h : op.arity = 2) (x y : Word) :
    Executes w program [.arithmetic op] (y :: x :: s) μ (op.value w.signed x y :: s) μ := by
  refine one fun _ that temp => ⟨that, temp, ?_⟩
  simp [exec?, h, Machine.next]

/-- A call takes its arguments, the last of them topmost. -/
lemma call (name : String) (vs : List Word) (hn : vs.length ≤ Grammar.maxWord) :
    Executes w program [.call name vs.length.toUInt16] (vs.reverse ++ s) μ
      ((w.apply name vs μ).1 :: s) (w.apply name vs μ).2 := by
  have hw : vs.length.toUInt16.toNat = vs.length := Grammar.toNat_toUInt16 hn
  -- The first argument is the deepest one, so the arguments stand on the stack in reverse.
  have hd : (vs.reverse ++ s).drop vs.length = s := List.drop_left' List.length_reverse
  intro i hs
  refine Leads.one hs.head fun that temp =>
    ⟨that, Function.update temp 0 (w.scratch name ⟨i, vs.reverse ++ s, μ, that, temp⟩), ?_⟩
  simp [exec?, hw, hd, Machine.next]

end Executes

end Jack.Vm

namespace Jack.Grammar

open Vm

variable {w : World} {program : List Instruction} {c : Context} {s : List Word}

/-! ## Variables -/

/-- Pushing from the place of a symbol pushes its word. -/
lemma executes_push_symbol (y : Symbol) (μ : Memory) :
    Executes w program [.push y.kind.segment y.index] s μ (μ.get y :: s) μ := by
  refine .one fun _ that temp => ⟨that, temp, ?_⟩
  obtain ⟨type, kind, index⟩ := y
  cases kind <;> rfl

/-- Popping to the place of a symbol sets its word. -/
lemma executes_pop_symbol (y : Symbol) (v : Word) (μ : Memory) :
    Executes w program [.pop y.kind.segment y.index] (v :: s) μ s (μ.set y v) := by
  refine .one fun _ that temp => ⟨that, temp, ?_⟩
  obtain ⟨type, kind, index⟩ := y
  cases kind <;> rfl

/-- Loading a declared variable pushes its value. -/
lemma Context.executes_load {name : String} (h : c.Declared name) (μ : Memory) :
    Executes w program (c.load name) s μ (c.value name μ :: s) μ := by
  obtain ⟨y, hy⟩ := exists_lookup? h
  rw [load, value, hy]
  exact executes_push_symbol y μ

/-- Storing into a declared variable assigns to it. -/
lemma Context.executes_store {name : String} (h : c.Declared name) (v : Word) (μ : Memory) :
    Executes w program (c.store name) (v :: s) μ s (c.assigned name v μ) := by
  obtain ⟨y, hy⟩ := exists_lookup? h
  rw [store, assigned, hy]
  exact executes_pop_symbol y v μ

/-- The object a call is made on becomes its first argument. -/
lemma Context.executes_receiver (callee : Callee) (μ : Memory) :
    Executes w program (c.receiver callee) s μ ((c.object μ callee).reverse ++ s) μ := by
  cases callee with
  | own name => exact .this
  | member owner name =>
    rw [receiver, load, object]
    cases c.lookup? owner with
    | some y => exact executes_push_symbol y μ
    | none => exact .nil

/-- A call is made on as many objects as it has implicit arguments. -/
lemma Context.length_object (callee : Callee) (μ : Memory) :
    (c.object μ callee).length = c.implicitArgs callee := by
  cases callee with
  | own name => rfl
  | member owner name =>
    rw [object, implicitArgs]
    by_cases h : c.Declared owner
    · obtain ⟨y, hy⟩ := exists_lookup? h
      simp [hy, h]
    · simp [(lookup?_eq_none_iff c owner).2 h, h]

/-! ## Expressions -/

/-- The code of a word pushes its value. -/
lemma TermWord.executes (x : TermWord) (μ : Memory) :
    Executes w program x.code s μ (x.eval μ :: s) μ := by
  cases x with
  | trueWord => exact (Executes.constant 0).append (.unary rfl 0)
  | falseWord => exact .constant 0
  | nullWord => exact .constant 0
  | thisWord => exact .this

/-- The code of the characters of a string appends them one by one. -/
lemma executes_appendChars (runtime : Runtime) (cs : List Char) (v : Word) (μ : Memory) :
    Executes w program (cs.flatMap fun char =>
      [.push .constant char.toNat.toUInt16, .call runtime.stringAppend 2]) (v :: s) μ
      ((appendChars w runtime cs (v, μ)).1 :: s) (appendChars w runtime cs (v, μ)).2 := by
  induction cs generalizing v μ with
  | nil => exact .nil
  | cons char cs ih =>
    have hc : Executes w program [.call runtime.stringAppend 2]
        (char.toNat.toUInt16 :: v :: s) μ
        ((w.apply runtime.stringAppend [v, char.toNat.toUInt16] μ).1 :: s)
        (w.apply runtime.stringAppend [v, char.toNat.toUInt16] μ).2 :=
      .call _ [v, char.toNat.toUInt16] (by simp [maxWord])
    exact ((Executes.constant _).append hc).append (ih _ _)

/-- The code of a string pushes what the routines make of it. -/
lemma executes_stringCode (runtime : Runtime) (body : String) (μ : Memory) :
    Executes w program (stringCode runtime body) s μ ((evalString w runtime body μ).1 :: s)
      (evalString w runtime body μ).2 := by
  have hc : Executes w program [.call runtime.stringNew 1] (body.length.toUInt16 :: s) μ
      ((w.apply runtime.stringNew [body.length.toUInt16] μ).1 :: s)
      (w.apply runtime.stringNew [body.length.toUInt16] μ).2 :=
    .call _ [body.length.toUInt16] (by simp [maxWord])
  exact ((Executes.constant _).append hc).append (executes_appendChars runtime _ _ _)

/-- The instruction of an operator puts its value in the place of the operands. -/
lemma Operator.executes (runtime : Runtime) (op : Operator) (x y : Word) (μ : Memory) :
    Executes w program [op.instruction runtime] (y :: x :: s) μ
      ((op.eval w runtime x y μ).1 :: s) (op.eval w runtime x y μ).2 := by
  cases op with
  | times => exact .call _ [x, y] (by simp [maxWord])
  | divide => exact .call _ [x, y] (by simp [maxWord])
  | _ => exact .binary rfl x y

/-- The instruction of a unary operator puts its value in the place of the operand. -/
lemma UnaryOp.executes (op : UnaryOp) (y : Word) (μ : Memory) :
    Executes w program [.arithmetic op.op] (y :: s) μ (op.op.value w.signed 0 y :: s) μ := by
  cases op <;> exact .unary rfl y

/-- The word that an index and an array lead to. The address goes through `pointer 1`. -/
lemma executes_readElement (i base : Word) (μ : Memory) :
    Executes w program readElement (base :: i :: s) μ (μ.heap (i + base) :: s) μ := by
  intro k hs that temp
  refine ⟨i + base, temp, ?_⟩
  apply Reaches.next hs.head rfl
  apply Reaches.next hs.tail.head rfl
  apply Reaches.next (n := ⟨k + 3, μ.heap (i + base) :: s, μ, i + base, temp⟩) hs.tail.tail.head
  · simp [exec?, Machine.read?, Machine.next, Op.value]
  · exact .refl _

/-- The value of an assignment goes through a scratch word while the address gets into
`pointer 1`. -/
lemma executes_writeElement (v address : Word) (μ : Memory) :
    Executes w program writeElement (v :: address :: s) μ s (μ.poke address v) := by
  intro k hs that temp
  refine ⟨address, Function.update temp 0 v, ?_⟩
  apply Reaches.next hs.head rfl
  apply Reaches.next hs.tail.head rfl
  apply Reaches.next hs.tail.tail.head rfl
  apply Reaches.next (n := ⟨k + 4, s, μ.poke address v, address, Function.update temp 0 v⟩)
    hs.tail.tail.tail.head
  · simp [exec?, Machine.write?, Machine.next, Memory.poke]
  · exact .refl _

/-- The object and the arguments of a call are passed, then it is made. -/
lemma executes_call {callee : Callee} {args : List Instruction} {vs : List Word} {μ ν : Memory}
    (ha : ∀ s, Executes w program args s μ (vs.reverse ++ s) ν)
    (hw : vs.length + c.implicitArgs callee ≤ maxWord) :
    Executes w program (c.receiver callee ++ args ++ [c.invocation callee vs.length]) s μ
      ((w.apply (c.subroutine callee) (c.object μ callee ++ vs) ν).1 :: s)
      (w.apply (c.subroutine callee) (c.object μ callee ++ vs) ν).2 := by
  have hl : (c.object μ callee ++ vs).length = vs.length + c.implicitArgs callee := by
    rw [List.length_append, Context.length_object, Nat.add_comm]
  have hc : Executes w program
      [.call (c.subroutine callee) (c.object μ callee ++ vs).length.toUInt16]
      ((c.object μ callee ++ vs).reverse ++ s) ν
      ((w.apply (c.subroutine callee) (c.object μ callee ++ vs) ν).1 :: s)
      (w.apply (c.subroutine callee) (c.object μ callee ++ vs) ν).2 :=
    .call _ _ (hl ▸ hw)
  rw [hl, List.reverse_append, List.append_assoc] at hc
  exact ((Context.executes_receiver callee μ).append (ha _)).append hc

/-- Arguments have one value each. -/
lemma Args.length_eval (as : Args) (μ : Memory) : (as.eval w c μ).1.length = as.length := by
  cases as with
  | nil => rfl
  | cons first rest => simp [Args.eval, Args.length, Args.length_eval rest]

mutual

/-- The code of a term pushes its value. -/
lemma Term.executes (t : Term) (h : t.Valid c) {s : List Word} (μ : Memory) :
    Executes w program (t.code c) s μ ((t.eval w c μ).1 :: s) (t.eval w c μ).2 := by
  cases t with
  | integer value => exact .constant _
  | string body => exact executes_stringCode _ _ μ
  | word x => exact x.executes μ
  | var name => exact Context.executes_load h μ
  | element name index =>
    -- Nothing is kept in `pointer 1` while the index is evaluated: it is set behind the addition.
    have hi := Expr.executes index h.2 (s := s) μ
    exact (hi.append (Context.executes_load h.1 _)).append (executes_readElement _ _ _)
  | call callee args =>
    have hl : (args.eval w c μ).1.length = args.length := args.length_eval μ
    have hc := executes_call (w := w) (s := s) (fun s => Args.executes args h.1 (s := s) μ)
      (hl.symm ▸ h.2)
    rw [hl] at hc
    exact hc
  | group inner => exact Expr.executes inner h μ
  | unary op operand => exact (Term.executes operand h μ).append (op.executes _ _)

/-- The code of an expression pushes its value. -/
lemma Expr.executes (x : Expr) (h : x.Valid c) {s : List Word} (μ : Memory) :
    Executes w program (x.code c) s μ ((x.eval w c μ).1 :: s) (x.eval w c μ).2 := by
  cases x with
  | mk first rest => exact (Term.executes first h.1 μ).append (Tail.executes rest h.2 _ _)

/-- The code of the rest of an expression puts the value of all in the place of the first operand.
-/
lemma Tail.executes (r : Tail) (h : r.Valid c) {s : List Word} (x : Word) (μ : Memory) :
    Executes w program (r.code c) (x :: s) μ ((r.eval w c x μ).1 :: s) (r.eval w c x μ).2 := by
  cases r with
  | nil => exact .nil
  | cons op operand rest =>
    -- The left operand stays below the right one, whatever that one does.
    have ho := Term.executes operand h.1 (s := x :: s) μ
    exact (ho.append (op.executes _ _ _ _)).append (Tail.executes rest h.2 _ _)

/-- The code of arguments pushes their values, the last on top. -/
lemma Args.executes (as : Args) (h : as.Valid c) {s : List Word} (μ : Memory) :
    Executes w program (as.code c) s μ ((as.eval w c μ).1.reverse ++ s) (as.eval w c μ).2 := by
  cases as with
  | nil => exact .nil
  | cons first rest =>
    have hr := (Expr.executes first h.1 (s := s) μ).append (Args.executes rest h.2 _)
    simpa [Args.code, Args.eval] using hr

end

/-- The code of the value of a `return` pushes it. -/
lemma executes_valueCode (value : Option Expr) (h : ValidValue c value) (μ : Memory) :
    Executes w program (valueCode c value) s μ ((evalValue w c μ value).1 :: s)
      (evalValue w c μ value).2 := by
  cases value with
  | none => exact .constant 0
  | some value => exact value.executes h μ

end Jack.Grammar
