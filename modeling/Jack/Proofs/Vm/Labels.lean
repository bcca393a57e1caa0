import Std.Data.String.ToNat
import Jack.Proofs.Grammar.Code
import Jack.Proofs.Vm.Machine

/-!
# The labels of compiled code

The digits in the name of a label are the number of its branch or loop, and an `N` tells the label
at its end from the other one. As no two branches or loops have the same number, no two labels of a
class have the same name, and a jump finds the one label it names. Only branches, loops and returns
have other code than straight code, which control passes from its start to its end.
-/

namespace Jack

open Vm Grammar

namespace Vm

variable (is js : List Instruction)

/-- The labels of the first part come first. -/
@[simp] lemma labelNames_append : labelNames (is ++ js) = labelNames is ++ labelNames js :=
  List.filterMap_append

/-- The labels that the jumps of a program name, in order. -/
def jumpNames (program : List Instruction) : List String :=
  program.filterMap fun
    | .goto name | .ifGoto name => some name
    | _ => none

/-- The jumps of the first part come first. -/
@[simp] lemma jumpNames_append : jumpNames (is ++ js) = jumpNames is ++ jumpNames js :=
  List.filterMap_append

/-- Does control go on behind an instruction, and come to it only from the one before? -/
def Instruction.Straight : Instruction → Prop
  | .push _ _ | .pop _ _ | .arithmetic _ | .call _ _ => True
  | _ => False

/-- Code without labels, jumps and returns. -/
def Straight (is : List Instruction) : Prop := ∀ i ∈ is, i.Straight

/-- Empty code is straight. -/
@[simp] lemma straight_nil : Straight [] := by simp [Straight]

/-- Code is straight if its first instruction is, and the rest is. -/
@[simp] lemma straight_cons (i : Instruction) : Straight (i :: is) ↔ i.Straight ∧ Straight is :=
  List.forall_mem_cons

/-- Code in two parts is straight if both parts are. -/
@[simp] lemma straight_append : Straight (is ++ js) ↔ Straight is ∧ Straight js :=
  List.forall_mem_append

variable {is}

/-- Straight code has no labels. -/
lemma Straight.labelNames_eq (h : Straight is) : labelNames is = [] := by
  rw [labelNames, List.filterMap_eq_nil_iff]
  intro i hi
  have hs := h i hi
  cases i with
  | label name => exact hs.elim
  | _ => rfl

/-- Straight code has no jumps. -/
lemma Straight.jumpNames_eq (h : Straight is) : jumpNames is = [] := by
  rw [jumpNames, List.filterMap_eq_nil_iff]
  intro i hi
  have hs := h i hi
  cases i with
  | goto name => exact hs.elim
  | ifGoto name => exact hs.elim
  | _ => rfl

/-- A jump finds the one label it names. -/
lemma target?_eq_some {program : List Instruction} (hn : (labelNames program).Nodup) {k : Nat}
    {name : String} (hk : program[k]? = some (.label name)) : target? program name = some k := by
  induction program generalizing k with
  | nil => cases hk
  | cons i program ih =>
    cases k with
    | zero =>
      obtain rfl : i = .label name := by simpa using hk
      simp [target?, List.findIdx?_cons]
    | succ k =>
      have hk' : program[k]? = some (.label name) := by simpa using hk
      have hmem : name ∈ labelNames program :=
        List.mem_filterMap.2 ⟨.label name, List.mem_of_getElem? hk', rfl⟩
      have happ : labelNames (i :: program) = labelNames [i] ++ labelNames program :=
        labelNames_append [i] program
      rw [happ, List.nodup_append] at hn
      -- The label is further on, and no other instruction is the same label.
      have hne : i ≠ .label name := by
        rintro rfl
        exact hn.2.2 name List.mem_cons_self name hmem rfl
      have ht := ih hn.2.1 hk'
      rw [target?] at ht
      simp [target?, List.findIdx?_cons, hne, ht]

end Vm

/-! ## Names and numbers -/

/-- The digits in a name write a number, and it has an `N` if it ends a branch or loop. -/
structure HasNumber (name : String) (k : Nat) (ends : Bool) : Prop where
  digits : name.toList.filter Char.isDigit = k.repr.toList
  mark : 'N' ∈ name.toList ↔ ends = true

/-- A word without digits and a number behind it make a label with that number. -/
lemma hasNumber_append {pre : String} {ends : Bool} (hd : pre.toList.filter Char.isDigit = [])
    (hm : 'N' ∈ pre.toList ↔ ends = true) (k : Nat) : HasNumber (pre ++ k.repr) k ends := by
  have hk : ∀ char ∈ k.repr.toList, char.isDigit = true := by
    intro char hc
    rw [Nat.toList_repr] at hc
    exact Nat.isDigit_of_mem_toDigits (by omega) (by omega) hc
  have hn : 'N' ∉ k.repr.toList := fun hc => absurd (hk 'N' hc) (by decide)
  constructor
  · rw [String.toList_append, List.filter_append, hd, List.filter_eq_self.2 hk, List.nil_append]
  · rw [String.toList_append, List.mem_append, or_iff_left hn, hm]

/-- The label of a false condition has the number of its branch. -/
lemma hasNumber_branchFalse (k : Nat) : HasNumber (Engine.branchFalse k) k false :=
  hasNumber_append (by decide) (by decide) k

/-- The label at the end of a branch has the number of the branch, and is an end. -/
lemma hasNumber_branchEnd (k : Nat) : HasNumber (Engine.branchEnd k) k true :=
  hasNumber_append (by decide) (by decide) k

/-- The label at the top of a loop has the number of the loop. -/
lemma hasNumber_loopTop (k : Nat) : HasNumber (Engine.loopTop k) k false :=
  hasNumber_append (by decide) (by decide) k

/-- The label at the end of a loop has the number of the loop, and is an end. -/
lemma hasNumber_loopEnd (k : Nat) : HasNumber (Engine.loopEnd k) k true :=
  hasNumber_append (by decide) (by decide) k

/-- Names are different, and their numbers have a property. -/
structure Numbered (names : List String) (R : Nat → Bool → Prop) : Prop where
  distinct : names.Nodup
  number : ∀ name ∈ names, ∃ k ends, HasNumber name k ends ∧ R k ends

namespace Numbered

variable {names names' : List String} {R S : Nat → Bool → Prop}

/-- An empty list of labels is numbered in any way. -/
lemma nil : Numbered [] R where
  distinct := List.nodup_nil
  number := by simp

/-- Code without labels is numbered in any way. -/
lemma of_eq_nil (h : names = []) : Numbered names R := h ▸ nil

/-- Labels numbered in one way are numbered in any way that allows more. -/
lemma mono (h : Numbered names R) (hRS : ∀ k ends, R k ends → S k ends) : Numbered names S where
  distinct := h.distinct
  number := by
    intro name hn
    obtain ⟨k, ends, hk, hR⟩ := h.number name hn
    exact ⟨k, ends, hk, hRS k ends hR⟩

/-- Names with different numbers are different. -/
lemma append (h : Numbered names R) (h' : Numbered names' S)
    (hRS : ∀ k ends, R k ends → ¬ S k ends) :
    Numbered (names ++ names') fun k ends => R k ends ∨ S k ends where
  distinct := by
    rw [List.nodup_append]
    refine ⟨h.distinct, h'.distinct, ?_⟩
    rintro x hx _ hy rfl
    obtain ⟨k, ends, hk, hR⟩ := h.number x hx
    obtain ⟨l, ends', hl, hS⟩ := h'.number x hy
    -- A name that is in both lists has the number and the mark of both.
    have hkl : k = l := Nat.repr_injective (String.toList_inj.1 (hk.digits.symm.trans hl.digits))
    have he : ends = ends' := by
      rw [Bool.eq_iff_iff, ← hk.mark, hl.mark]
    subst hkl he
    exact hRS k ends hR hS
  number := by
    intro name hm
    obtain hm | hm := List.mem_append.1 hm
    · obtain ⟨k, ends, hk, hR⟩ := h.number name hm
      exact ⟨k, ends, hk, .inl hR⟩
    · obtain ⟨k, ends, hk, hS⟩ := h'.number name hm
      exact ⟨k, ends, hk, .inr hS⟩

end Numbered

/-- One label is numbered by its own number. -/
lemma HasNumber.only {name : String} {k : Nat} {ends : Bool} (h : HasNumber name k ends) :
    Numbered [name] fun l ends' => l = k ∧ ends' = ends where
  distinct := List.pairwise_singleton _ _
  number := by
    intro x hx
    obtain rfl := List.mem_singleton.1 hx
    exact ⟨k, ends, h, rfl, rfl⟩

/-! ## The labels of a class -/

namespace Grammar

variable {c : Context}

/-- Loading a variable is straight code. -/
lemma Context.straight_load (name : String) : Straight (c.load name) := by
  rw [load]
  cases c.lookup? name <;> simp [Instruction.Straight]

/-- Storing into a variable is straight code. -/
lemma Context.straight_store (name : String) : Straight (c.store name) := by
  rw [store]
  cases c.lookup? name <;> simp [Instruction.Straight]

/-- Pushing the receiver of a call is straight code. -/
lemma Context.straight_receiver (callee : Callee) : Straight (c.receiver callee) := by
  cases callee with
  | own name => simp [receiver, Instruction.Straight]
  | member owner name => exact straight_load owner

/-- Building a string is straight code. -/
lemma straight_stringCode (runtime : Runtime) (body : String) :
    Straight (stringCode runtime body) := by
  have hc : ∀ cs : List Char, Straight (cs.flatMap fun char =>
      [.push .constant char.toNat.toUInt16, .call runtime.stringAppend 2]) := by
    intro cs
    induction cs with
    | nil => simp
    | cons char cs ih =>
      rw [List.flatMap_cons, straight_append]
      exact ⟨by simp [Instruction.Straight], ih⟩
  rw [stringCode, straight_append]
  exact ⟨by simp [Instruction.Straight], hc _⟩

/-- A word that is a term has straight code. -/
lemma TermWord.straight_code (x : TermWord) : Straight x.code := by
  cases x <;> simp [TermWord.code, Instruction.Straight]

/-- The instruction of an operator is straight. -/
lemma Operator.straight_instruction (runtime : Runtime) (op : Operator) :
    (op.instruction runtime).Straight := by
  cases op <;> trivial

mutual

/-- A term has straight code. -/
lemma Term.straight_code (t : Term) : Straight (t.code c) := by
  cases t with
  | integer value => simp [Term.code, Instruction.Straight]
  | string body => exact straight_stringCode _ _
  | word x => exact x.straight_code
  | var name => exact Context.straight_load name
  | element name index =>
    simp [Term.code, Expr.straight_code index, Context.straight_load, readElement,
      Instruction.Straight]
  | call callee args =>
    simp [Term.code, Context.straight_receiver, Args.straight_code args, Context.invocation,
      Instruction.Straight]
  | group inner => exact Expr.straight_code inner
  | unary op operand => simp [Term.code, Term.straight_code operand, Instruction.Straight]

/-- An expression has straight code. -/
lemma Expr.straight_code (x : Expr) : Straight (x.code c) := by
  cases x with
  | mk first rest => simp [Expr.code, Term.straight_code first, Tail.straight_code rest]

/-- The rest of an expression has straight code. -/
lemma Tail.straight_code (x : Tail) : Straight (x.code c) := by
  cases x with
  | nil => exact straight_nil
  | cons op operand rest =>
    simp [Tail.code, Term.straight_code operand, op.straight_instruction,
      Tail.straight_code rest]

/-- Arguments have straight code. -/
lemma Args.straight_code (as : Args) : Straight (as.code c) := by
  cases as with
  | nil => exact straight_nil
  | cons first rest => simp [Args.code, Expr.straight_code first, Args.straight_code rest]

end

/-- The value of a `return` has straight code. -/
lemma straight_valueCode (value : Option Expr) : Straight (valueCode c value) := by
  cases value with
  | none => simp [valueCode, Instruction.Straight]
  | some value => exact value.straight_code

/-- An assignment to a variable has straight code. -/
lemma Statement.straight_assign (name : String) (value : Expr) (n : Nat) :
    Straight ((Statement.assign name value).code c n) := by
  simp [Statement.code, value.straight_code, Context.straight_store]

/-- An assignment to an element has straight code. -/
lemma Statement.straight_assignElement (name : String) (index value : Expr) (n : Nat) :
    Straight ((Statement.assignElement name index value).code c n) := by
  simp [Statement.code, index.straight_code, value.straight_code, Context.straight_load,
    writeElement, Instruction.Straight]

/-- A `do` has straight code. -/
lemma Statement.straight_invoke (callee : Callee) (args : Args) (n : Nat) :
    Straight ((Statement.invoke callee args).code c n) := by
  simp [Statement.code, Context.straight_receiver, args.straight_code, Context.invocation,
    Instruction.Straight]

/-- An `if` without `else` has its two labels around nothing but its end. -/
lemma Statement.labelNames_ifThen (condition : Expr) (yes : Statements) (n : Nat) :
    labelNames ((Statement.ifThen condition yes).code c n) =
      labelNames (yes.code c (n + 1)) ++ [Engine.branchFalse n] ++ [Engine.branchEnd n] := by
  simp only [Statement.code, labelNames_append, condition.straight_code.labelNames_eq]
  rfl

/-- An `if` with `else` has its two labels around the second arm. -/
lemma Statement.labelNames_ifElse (condition : Expr) (yes no : Statements) (n : Nat) :
    labelNames ((Statement.ifElse condition yes no).code c n) =
      labelNames (yes.code c (n + 1)) ++ [Engine.branchFalse n] ++
        labelNames (no.code c (n + 1 + yes.labels)) ++ [Engine.branchEnd n] := by
  simp only [Statement.code, labelNames_append, condition.straight_code.labelNames_eq]
  rfl

/-- A `while` has its two labels around its body. -/
lemma Statement.labelNames_loop (condition : Expr) (body : Statements) (n : Nat) :
    labelNames ((Statement.loop condition body).code c n) =
      [Engine.loopTop n] ++ labelNames (body.code c (n + 1)) ++ [Engine.loopEnd n] := by
  simp only [Statement.code, labelNames_append, condition.straight_code.labelNames_eq]
  rfl

/-- Labels whose numbers lie between two bounds. -/
def Within (n m k : Nat) (_ends : Bool) : Prop := n ≤ k ∧ k < m

mutual

/-- The labels of a statement have the numbers that it uses up. -/
lemma Statement.numbered (s : Statement) (n : Nat) :
    Numbered (labelNames (s.code c n)) (Within n (n + s.labels)) := by
  cases s with
  | assign name value => exact .of_eq_nil (Statement.straight_assign name value n).labelNames_eq
  | assignElement name index value =>
    exact .of_eq_nil (Statement.straight_assignElement name index value n).labelNames_eq
  | ifThen condition yes =>
    have hy := Statements.numbered yes (n + 1)
    rw [Statement.labelNames_ifThen]
    -- The two labels of a branch have the same number, and the mark tells them apart.
    refine ((hy.append (hasNumber_branchFalse n).only ?_).append
      (hasNumber_branchEnd n).only ?_).mono ?_
    all_goals grind [Within, Statement.labels]
  | ifElse condition yes no =>
    have hy := Statements.numbered yes (n + 1)
    have hn := Statements.numbered no (n + 1 + yes.labels)
    rw [Statement.labelNames_ifElse]
    refine (((hy.append (hasNumber_branchFalse n).only ?_).append hn ?_).append
      (hasNumber_branchEnd n).only ?_).mono ?_
    all_goals grind [Within, Statement.labels]
  | loop condition body =>
    have hb := Statements.numbered body (n + 1)
    rw [Statement.labelNames_loop]
    refine (((hasNumber_loopTop n).only.append hb ?_).append (hasNumber_loopEnd n).only ?_).mono ?_
    all_goals grind [Within, Statement.labels]
  | invoke callee args => exact .of_eq_nil (Statement.straight_invoke callee args n).labelNames_eq
  | giveBack value =>
    refine .of_eq_nil ?_
    simp only [Statement.code, labelNames_append, (straight_valueCode value).labelNames_eq]
    rfl

/-- The labels of statements have the numbers that they use up. -/
lemma Statements.numbered (ss : Statements) (n : Nat) :
    Numbered (labelNames (ss.code c n)) (Within n (n + ss.labels)) := by
  cases ss with
  | nil => exact .nil
  | cons first rest =>
    have hf := Statement.numbered first n
    have hr := Statements.numbered rest (n + first.labels)
    rw [Statements.code, labelNames_append]
    refine (hf.append hr ?_).mono ?_
    all_goals grind [Within, Statements.labels]

end

/-- The labels of a subroutine have the numbers that its body uses up. -/
lemma Subroutine.numbered (o : Options) (k : ClassDec) (s : Subroutine) (n : Nat) :
    Numbered (labelNames (s.code o k n)) (Within n (n + s.body.labels)) := by
  have hp : labelNames (s.prologue o k) = [] := by
    rw [prologue]
    cases s.kind <;> rfl
  have hc : labelNames s.closing = [] := by
    rw [closing]
    split <;> rfl
  have h : labelNames (s.code o k n) = labelNames (s.body.code (s.context o k) n) := by
    rw [code, labelNames_append, labelNames_append, hc, List.append_nil]
    exact congrArg (· ++ _) hp
  rw [h]
  exact s.body.numbered n

/-- How many numbers of branches and loops subroutines use up. -/
def labelsOf : List Subroutine → Nat
  | [] => 0
  | s :: ss => s.body.labels + labelsOf ss

/-- The labels of subroutines have the numbers that they use up. -/
lemma ClassDec.numbered_codeFrom (o : Options) (k : ClassDec) (ss : List Subroutine) (n : Nat) :
    Numbered (labelNames (k.codeFrom o n ss)) (Within n (n + labelsOf ss)) := by
  induction ss generalizing n with
  | nil => exact .nil
  | cons s ss ih =>
    have hs := s.numbered o k n
    rw [codeFrom, labelNames_append]
    refine (hs.append (ih (n + s.body.labels)) ?_).mono ?_
    all_goals grind [Within, labelsOf]

/-- The labels of a class have different names. -/
theorem ClassDec.nodup_labelNames (o : Options) (k : ClassDec) : (labelNames (k.code o)).Nodup :=
  (k.numbered_codeFrom o k.subroutines 0).distinct

end Grammar

end Jack
