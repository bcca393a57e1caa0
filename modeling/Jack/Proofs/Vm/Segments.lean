import Jack.Proofs.Compile.Translation
import Mathlib.Data.List.Forall2

/-!
# The segments that compiled code uses

Variables are numbered by counting those of their kind before them, so that the number of a variable
stays below the number of variables of its kind. The code of a subroutine refers to variables only
by such numbers, and to the other segments only by the fixed words that the translation uses.
-/

namespace Jack.Vm

/-- An instruction reads or writes a word of a segment. -/
def Instruction.Refers (i : Instruction) (s : Segment) (n : UInt16) : Prop :=
  i = .push s n ∨ i = .pop s n

/-- Does a segment have a word, where `size` gives the number of variables of each kind? -/
def Segment.HasWord (size : SymbolKind → Nat) (n : UInt16) : Segment → Prop
  | .constant => True
  | .argument => n.toNat < size .argument
  | .localVar => n.toNat < size .localVar
  | .static => n.toNat < size .static
  | .thisField => n.toNat < size .field
  | .pointer => n = 0 ∨ n = 1
  | .thatCell | .temp => n = 0

/-- May an instruction stand in the body of a subroutine with variables of these numbers? -/
def Instruction.Within (size : SymbolKind → Nat) : Instruction → Prop
  | .push s n => s.HasWord size n
  | .pop s n => s ≠ .constant ∧ s.HasWord size n
  | .function _ _ => False
  | _ => True

/-- A block of code stays within its segments. -/
def StaysWithin (size : SymbolKind → Nat) (is : List Instruction) : Prop :=
  ∀ i ∈ is, i.Within size

section
variable {size : SymbolKind → Nat} {i : Instruction} {is js : List Instruction}

/-- Empty code stays within any sizes. -/
@[simp] lemma staysWithin_nil : StaysWithin size [] := by simp [StaysWithin]

/-- Code stays within sizes if its first instruction does, and the rest does. -/
@[simp] lemma staysWithin_cons :
    StaysWithin size (i :: is) ↔ i.Within size ∧ StaysWithin size is := List.forall_mem_cons

/-- Code in two parts stays within sizes if both parts do. -/
@[simp] lemma staysWithin_append :
    StaysWithin size (is ++ js) ↔ StaysWithin size is ∧ StaysWithin size js :=
  List.forall_mem_append

/-- An instruction that stays within sizes refers to a word that is there. -/
lemma Instruction.Within.hasWord (h : i.Within size) {s : Segment} {n : UInt16}
    (hr : i.Refers s n) : s.HasWord size n := by
  obtain rfl | rfl := hr
  · exact h
  · exact h.2

end

end Jack.Vm

namespace Jack

open Vm

/-- The segment of a kind has as many words as there are variables of the kind. -/
lemma SymbolKind.hasWord_segment (size : SymbolKind → Nat) (n : UInt16) (kind : SymbolKind) :
    kind.segment.HasWord size n ↔ n.toNat < size kind := by
  cases kind <;> exact Iff.rfl

namespace Grammar

/-! ## The numbers of variables -/

/-- A variable is numbered by those of its kind before it, and it comes after them. -/
lemma Variable.index_lt_of_findAfter {before vs : List Variable} {name : String} {s : Symbol}
    (h : findAfter before name vs = some s) : s.index.toNat < count s.kind (before ++ vs) := by
  induction vs generalizing before with
  | nil => cases h
  | cons v vs ih =>
    rw [findAfter] at h
    split at h
    · cases h
      have hle : (count v.kind before).toUInt16.toNat ≤ count v.kind before := Nat.mod_le _ _
      have hv : count v.kind [v] = 1 := by rw [count_singleton, if_pos rfl]
      have hc : count v.kind (before ++ v :: vs) =
          count v.kind before + (count v.kind [v] + count v.kind vs) := by
        rw [count_append, ← List.singleton_append, count_append]
      simp only
      omega
    · have hr := ih h
      rwa [List.append_assoc] at hr

/-- No variables are counted where none is of the kind. -/
lemma Variable.count_eq_zero {kind : SymbolKind} {vs : List Variable}
    (h : ∀ v ∈ vs, v.kind ≠ kind) : count kind vs = 0 := by
  rw [count, List.countP_eq_zero]
  intro v hv
  simpa using h v hv

/-- The variables of a list of names have the kind of the list. -/
lemma Names.kind_of_mem_declared {kind : SymbolKind} {n : Names} {v : Variable}
    (h : v ∈ n.declared kind) : v.kind = kind := by
  obtain ⟨name, -, rfl⟩ := List.mem_map.1 h
  rfl

/-- The variables of a class are of the kinds of classes. -/
lemma ClassDec.isClassLevel_of_mem_declared {k : ClassDec} {v : Variable}
    (h : v ∈ k.declared) : v.kind.isClassLevel = true := by
  obtain ⟨d, -, hd⟩ := List.mem_flatMap.1 h
  rw [Names.kind_of_mem_declared hd]
  cases d.storage <;> rfl

/-- The variables of a subroutine are of the kinds of subroutines. -/
lemma Subroutine.isClassLevel_of_mem_declared {className : String} {s : Subroutine} {v : Variable}
    (h : v ∈ s.declared className) : v.kind.isClassLevel = false := by
  obtain hr | hw := List.mem_append.1 h
  · rw [receiver] at hr
    split at hr
    · obtain rfl := List.mem_singleton.1 hr
      rfl
    · cases hr
  · obtain hp | hl := List.mem_append.1 hw
    · obtain ⟨p, -, rfl⟩ := List.mem_map.1 hp
      rfl
    · obtain ⟨n, -, hn⟩ := List.mem_flatMap.1 hl
      rw [Names.kind_of_mem_declared hn]
      rfl

/-- The number of variables of each kind. -/
def Context.size (c : Context) (kind : SymbolKind) : Nat :=
  Variable.count kind c.subVars + Variable.count kind c.classVars

/-- A symbol that is found has a number below how many there are of its kind. -/
lemma Context.index_lt_size {c : Context} {name : String} {s : Symbol}
    (h : c.lookup? name = some s) : s.index.toNat < c.size s.kind := by
  rw [lookup?] at h
  cases hs : Variable.find? c.subVars name with
  | some t =>
    rw [hs] at h
    cases h
    have hl := Variable.index_lt_of_findAfter hs
    exact Nat.lt_add_right _ hl
  | none =>
    rw [hs] at h
    have hl := Variable.index_lt_of_findAfter h
    exact Nat.lt_add_left _ hl

/-! ## Expressions -/

variable {c : Context}

/-- Loading a variable stays within the sizes of what is declared. -/
lemma Context.staysWithin_load (name : String) : StaysWithin c.size (c.load name) := by
  rw [load]
  cases hs : c.lookup? name with
  | some s =>
    have hw := (s.kind.hasWord_segment c.size s.index).2 (index_lt_size hs)
    exact List.forall_mem_singleton.2 hw
  | none => exact staysWithin_nil

/-- Storing into a variable stays within the sizes of what is declared. -/
lemma Context.staysWithin_store (name : String) : StaysWithin c.size (c.store name) := by
  rw [store]
  cases hs : c.lookup? name with
  | some s =>
    have hw := (s.kind.hasWord_segment c.size s.index).2 (index_lt_size hs)
    exact List.forall_mem_singleton.2 ⟨s.kind.segment_ne_constant, hw⟩
  | none => exact staysWithin_nil

/-- Pushing the receiver of a call stays within the sizes of what is declared. -/
lemma Context.staysWithin_receiver (callee : Callee) :
    StaysWithin c.size (c.receiver callee) := by
  cases callee with
  | own name => exact List.forall_mem_singleton.2 (.inl rfl)
  | member owner name => exact staysWithin_load owner

/-- The code of a word stays within any sizes. -/
lemma TermWord.staysWithin_code {size : SymbolKind → Nat} (w : TermWord) :
    StaysWithin size w.code := by
  cases w <;> simp [TermWord.code, Instruction.Within, Segment.HasWord]

/-- The instruction of an operator stays within any sizes. -/
lemma Operator.within_instruction {size : SymbolKind → Nat} (runtime : Runtime) (op : Operator) :
    (op.instruction runtime).Within size := by
  cases op <;> trivial

/-- Building a string stays within any sizes. -/
lemma staysWithin_stringCode {size : SymbolKind → Nat} (runtime : Runtime) (body : String) :
    StaysWithin size (stringCode runtime body) := by
  have hchars : ∀ cs : List Char, StaysWithin size (cs.flatMap fun char =>
      [.push .constant char.toNat.toUInt16, .call runtime.stringAppend 2]) := by
    intro cs
    induction cs with
    | nil => exact staysWithin_nil
    | cons char cs ih =>
      rw [List.flatMap_cons, staysWithin_append]
      exact ⟨by simp [Instruction.Within, Segment.HasWord], ih⟩
  rw [stringCode, staysWithin_append]
  exact ⟨by simp [Instruction.Within, Segment.HasWord], hchars _⟩

/-- Reading an element stays within any sizes. -/
lemma staysWithin_readElement {size : SymbolKind → Nat} : StaysWithin size readElement := by
  simp [readElement, Instruction.Within, Segment.HasWord]

/-- Writing an element stays within any sizes. -/
lemma staysWithin_writeElement {size : SymbolKind → Nat} : StaysWithin size writeElement := by
  simp [writeElement, Instruction.Within, Segment.HasWord]

mutual

/-- A term stays within the sizes of what is declared. -/
lemma Term.staysWithin_code (t : Term) : StaysWithin c.size (t.code c) := by
  cases t with
  | integer value => simp [Term.code, Instruction.Within, Segment.HasWord]
  | string body => exact staysWithin_stringCode _ body
  | word w => exact w.staysWithin_code
  | var name => exact Context.staysWithin_load name
  | element name index =>
    simp [Term.code, Expr.staysWithin_code index, Context.staysWithin_load,
      staysWithin_readElement]
  | call callee args =>
    simp [Term.code, Context.staysWithin_receiver, Args.staysWithin_code args,
      Context.invocation, Instruction.Within]
  | group inner => exact Expr.staysWithin_code inner
  | unary op operand => simp [Term.code, Term.staysWithin_code operand, Instruction.Within]

/-- An expression stays within the sizes of what is declared. -/
lemma Expr.staysWithin_code (x : Expr) : StaysWithin c.size (x.code c) := by
  cases x with
  | mk first rest =>
    simp [Expr.code, Term.staysWithin_code first, Tail.staysWithin_code rest]

/-- The rest of an expression stays within the sizes of what is declared. -/
lemma Tail.staysWithin_code (x : Tail) : StaysWithin c.size (x.code c) := by
  cases x with
  | nil => exact staysWithin_nil
  | cons op operand rest =>
    simp [Tail.code, Term.staysWithin_code operand, Operator.within_instruction,
      Tail.staysWithin_code rest]

/-- Arguments stay within the sizes of what is declared. -/
lemma Args.staysWithin_code (as : Args) : StaysWithin c.size (as.code c) := by
  cases as with
  | nil => exact staysWithin_nil
  | cons first rest =>
    simp [Args.code, Expr.staysWithin_code first, Args.staysWithin_code rest]

end

/-- The value of a `return` stays within the sizes of what is declared. -/
lemma staysWithin_valueCode (value : Option Expr) : StaysWithin c.size (valueCode c value) := by
  cases value with
  | none => simp [valueCode, Instruction.Within, Segment.HasWord]
  | some value => exact value.staysWithin_code

/-! ## Statements -/

mutual

/-- A statement stays within the sizes of what is declared. -/
lemma Statement.staysWithin_code (s : Statement) (n : Nat) :
    StaysWithin c.size (s.code c n) := by
  cases s with
  | assign name value =>
    simp [Statement.code, value.staysWithin_code, Context.staysWithin_store]
  | assignElement name index value =>
    simp [Statement.code, index.staysWithin_code, value.staysWithin_code,
      Context.staysWithin_load, staysWithin_writeElement, Instruction.Within]
  | ifThen condition yes =>
    simp [Statement.code, condition.staysWithin_code, Statements.staysWithin_code yes,
      Instruction.Within]
  | ifElse condition yes no =>
    simp [Statement.code, condition.staysWithin_code, Statements.staysWithin_code yes,
      Statements.staysWithin_code no, Instruction.Within]
  | loop condition body =>
    simp [Statement.code, condition.staysWithin_code, Statements.staysWithin_code body,
      Instruction.Within]
  | invoke callee args =>
    simp [Statement.code, Context.staysWithin_receiver, args.staysWithin_code,
      Context.invocation, Instruction.Within, Segment.HasWord]
  | giveBack value => simp [Statement.code, staysWithin_valueCode, Instruction.Within]

/-- Statements stay within the sizes of what is declared. -/
lemma Statements.staysWithin_code (ss : Statements) (n : Nat) :
    StaysWithin c.size (ss.code c n) := by
  cases ss with
  | nil => exact staysWithin_nil
  | cons first rest =>
    simp [Statements.code, Statement.staysWithin_code first, Statements.staysWithin_code rest]

end

/-! ## Subroutines -/

namespace Subroutine

variable (o : Options) (k : ClassDec) (s : Subroutine)

/-- The number of arguments, with the object of a method. -/
def arguments : Nat := s.params.length + if s.kind = .method then 1 else 0

/-- The number of variables of each kind in a subroutine of a class. -/
def size : SymbolKind → Nat
  | .static => Variable.count .static k.declared
  | .field => Variable.count .field k.declared
  | .argument => s.arguments
  | .localVar => Variable.count .localVar s.written

/-- The arguments of a subroutine are its parameters and, in a method, the object. -/
lemma count_arguments : Variable.count .argument (s.declared k.name) = s.arguments := by
  have hp : Variable.count .argument
      (s.params.map fun p => (⟨p.name, p.type.text, .argument⟩ : Variable)) = s.params.length := by
    simp [Variable.count, List.countP_map, Function.comp_def]
  have hl : Variable.count .argument (s.locals.flatMap (Names.declared .localVar)) = 0 := by
    apply Variable.count_eq_zero
    intro v hv
    obtain ⟨n, -, hn⟩ := List.mem_flatMap.1 hv
    rw [Names.kind_of_mem_declared hn]
    decide
  rw [declared, written, Variable.count_append, Variable.count_append, hp, hl, receiver, arguments]
  split
  · rw [Variable.count_singleton, if_pos rfl]
    omega
  · rw [Variable.count_nil]
    omega

/-- The locals of a subroutine are those written in it. -/
lemma count_locals :
    Variable.count .localVar (s.declared k.name) = Variable.count .localVar s.written := by
  have hr : Variable.count .localVar (s.receiver k.name) = 0 := by
    rw [receiver]
    split <;> rfl
  rw [declared, Variable.count_append, hr, Nat.zero_add]

/-- Neither scope has variables of the other's kinds. -/
lemma size_context : (s.context o k).size = s.size k := by
  have hc : ∀ kind, kind.isClassLevel = false → Variable.count kind k.declared = 0 := by
    intro kind hk
    apply Variable.count_eq_zero
    rintro v hv rfl
    rw [ClassDec.isClassLevel_of_mem_declared hv] at hk
    cases hk
  have hs : ∀ kind, kind.isClassLevel = true → Variable.count kind (s.declared k.name) = 0 := by
    intro kind hk
    apply Variable.count_eq_zero
    rintro v hv rfl
    rw [Subroutine.isClassLevel_of_mem_declared hv] at hk
    cases hk
  funext kind
  cases kind with
  | static => simp [Context.size, context, size, hs .static rfl]
  | field => simp [Context.size, context, size, hs .field rfl]
  | argument => simp [Context.size, context, size, hc .argument rfl, count_arguments]
  | localVar => simp [Context.size, context, size, hc .localVar rfl, count_locals]

/-- The code a subroutine starts with stays within its sizes. -/
lemma staysWithin_prologue : StaysWithin (s.size k) (s.prologue o k) := by
  rw [prologue]
  split
  · simp [Instruction.Within, Segment.HasWord]
  · next hk => simp [Instruction.Within, Segment.HasWord, size, arguments, hk]
  · exact staysWithin_nil

/-- The code a subroutine ends with stays within its sizes. -/
lemma staysWithin_closing : StaysWithin (s.size k) s.closing := by
  rw [closing]
  split
  · simp [Instruction.Within, Segment.HasWord]
  · exact staysWithin_nil

/-- The code of a subroutine stays within its sizes. -/
lemma staysWithin_code (n : Nat) :
    StaysWithin (s.size k) (s.prologue o k ++ s.body.code (s.context o k) n ++ s.closing) := by
  have hb := s.body.staysWithin_code (c := s.context o k) n
  rw [size_context] at hb
  rw [staysWithin_append, staysWithin_append]
  exact ⟨⟨s.staysWithin_prologue o k, hb⟩, s.staysWithin_closing k⟩

/-- Code refers to the variables that are declared and to no other words: `locals` is the number of
locals that a subroutine starts with, and `body` its code behind that. -/
structure InRange (locals : UInt16) (body : List Instruction) : Prop where
  noFunction : ∀ name n, .function name n ∉ body
  localVar : ∀ i ∈ body, ∀ n, i.Refers .localVar n → n < locals
  argument : ∀ i ∈ body, ∀ n, i.Refers .argument n →
    n.toNat < s.params.length + if s.kind = .method then 1 else 0
  thisField : ∀ i ∈ body, ∀ n, i.Refers .thisField n → n.toNat < Variable.count .field k.declared
  static : ∀ i ∈ body, ∀ n, i.Refers .static n → n.toNat < Variable.count .static k.declared
  pointer : ∀ i ∈ body, ∀ n, i.Refers .pointer n → n = 0 ∨ n = 1
  temp : ∀ i ∈ body, ∀ n, i.Refers .temp n → n = 0
  thatCell : ∀ i ∈ body, ∀ n, i.Refers .thatCell n → n = 0
  noPopConstant : ∀ n, .pop .constant n ∉ body
  /-- A constructor asks for as many words as there are fields. -/
  alloc : s.kind = .constructor → ∃ n rest,
    body = .push .constant n :: .call o.runtime.alloc 1 :: rest ∧
      n.toNat = Variable.count .field k.declared

variable {o k s}

/-- The block of a well-formed subroutine refers to words that are there. -/
lemma WellFormed.inRange (hk : ∀ kind, Variable.count kind k.declared ≤ maxWord)
    (h : s.WellFormed o k) (n : Nat) : ∃ locals body,
      s.code o k n = .function (k.name ++ "." ++ s.name) locals :: body ∧
        s.InRange o k locals body := by
  have hw := s.staysWithin_code o k n
  have hr : ∀ seg, ∀ i ∈ s.prologue o k ++ s.body.code (s.context o k) n ++ s.closing,
      ∀ m, i.Refers seg m → seg.HasWord (s.size k) m := by
    intro seg i hi m h
    exact (hw i hi).hasWord h
  have hl : (Variable.count .localVar s.written).toUInt16.toNat =
      Variable.count .localVar s.written := by
    apply toNat_toUInt16
    rw [← s.count_locals k]
    exact h.few .localVar
  refine ⟨(Variable.count .localVar s.written).toUInt16,
    s.prologue o k ++ s.body.code (s.context o k) n ++ s.closing, rfl, ?_⟩
  constructor
  case noFunction =>
    intro name m hm
    exact hw _ hm
  case localVar =>
    intro i hi m h
    rw [UInt16.lt_iff_toNat_lt, hl]
    exact hr .localVar i hi m h
  case argument => exact hr .argument
  case thisField => exact hr .thisField
  case static => exact hr .static
  case pointer => exact hr .pointer
  case temp => exact hr .temp
  case thatCell => exact hr .thatCell
  case noPopConstant =>
    intro m hm
    have hp : (Instruction.pop .constant m).Within (s.size k) := hw _ hm
    exact hp.1 rfl
  case alloc =>
    -- A constructor asks for as many words as the class has fields.
    intro hc
    refine ⟨(Variable.count .field k.declared).toUInt16,
      .pop .pointer 0 :: (s.body.code (s.context o k) n ++ s.closing), ?_,
      toNat_toUInt16 (hk .field)⟩
    simp [prologue, hc]

end Subroutine

/-- The code of a class is made of the codes of its subroutines. -/
lemma ClassDec.exists_blocks (o : Options) (k : ClassDec) (ss : List Subroutine) (n : Nat) :
    ∃ blocks, k.codeFrom o n ss = blocks.flatten ∧
      List.Forall₂ (fun s block => ∃ m, block = s.code o k m) ss blocks := by
  induction ss generalizing n with
  | nil => exact ⟨[], rfl, .nil⟩
  | cons s ss ih =>
    obtain ⟨blocks, hc, hb⟩ := ih (n + s.body.labels)
    refine ⟨s.code o k n :: blocks, ?_, .cons ⟨n, rfl⟩ hb⟩
    rw [codeFrom, hc, List.flatten_cons]

end Grammar

open Grammar

/-- The code of a class that compiles is made of one block for each subroutine, and each block
refers to declared variables only. -/
theorem references_in_range (o : Options) (tokens : List Token)
    (h : ∃ name, (Engine.start o tokens).compileClass.1 = .ok name) :
    ∃ (c : ClassDec) (blocks : List (List Instruction)),
      c.yield = (tokens.map Token.kind).takeWhile (· ≠ .eof) ∧
      (Engine.start o tokens).compileClass.2.code = blocks.flatten ∧
      List.Forall₂ (fun (s : Subroutine) block => ∃ locals body,
        block = .function (c.name ++ "." ++ s.name) locals :: body ∧ s.InRange o c locals body)
        c.subroutines blocks := by
  obtain ⟨c, hc⟩ := Compiles.exists_derives h
  obtain ⟨hiff, hcode⟩ := hc.compiles_iff (o := o)
  have hw := hiff.1 h
  obtain ⟨blocks, hf, hb⟩ := c.exists_blocks o c.subroutines 0
  refine ⟨c, blocks, hc, (hcode hw).trans hf, ?_⟩
  have hall := (List.forall₂_and_left c.subroutines blocks).2 ⟨hw.subroutines, hb⟩
  refine hall.imp ?_
  rintro s block ⟨hs, m, rfl⟩
  exact hs.inRange hw.few m

/-- `class Counter { static int made; field int at, step;
constructor Counter new(int by) { var int old; let old = made; let made = old + 1; let step = by; }
method int next() { let at = at + step; return at; } }` -/
def counter : ClassDec where
  name := "Counter"
  vars := [⟨.static, .int, "made", []⟩, ⟨.field, .int, "at", ["step"]⟩]
  subroutines :=
    [{ kind := .constructor
       result := some (.named "Counter")
       name := "new"
       params := [⟨.int, "by"⟩]
       locals := [⟨.int, "old", []⟩]
       body :=
        .cons (.assign "old" (.mk (.var "made") .nil))
        (.cons (.assign "made" (.mk (.var "old") (.cons .plus (.integer 1) .nil)))
        (.cons (.assign "step" (.mk (.var "by") .nil)) .nil)) },
     { kind := .method
       result := some .int
       name := "next"
       params := []
       locals := []
       body :=
        .cons (.assign "at" (.mk (.var "at") (.cons .plus (.var "step") .nil)))
        (.cons (.giveBack (some (.mk (.var "at") .nil))) .nil) }]

/-- The blocks of the class `Counter` refer to words that are there. -/
theorem references_in_range_counter :
    ∃ blocks, (Engine.start {} counter.tokens).compileClass.2.code = blocks.flatten ∧
      List.Forall₂ (fun (s : Subroutine) block => ∃ locals body,
        block = .function ("Counter." ++ s.name) locals :: body ∧ s.InRange {} counter locals body)
        counter.subroutines blocks := by
  have hc : Compiles {} counter.tokens := counter.derives_tokens.compiles_iff.1.2 (by decide)
  obtain ⟨c, blocks, hy, hcode, hb⟩ := references_in_range {} counter.tokens hc
  obtain rfl := ClassDec.yield_injective (hy.trans counter.derives_tokens.symm)
  exact ⟨blocks, hcode, hb⟩

end Jack
