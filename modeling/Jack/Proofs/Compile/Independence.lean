import Jack.Proofs.Vm.Control
import Jack.Proofs.Vm.Text
import Mathlib.Data.List.OfFn
import Mathlib.Logic.Equiv.Defs

/-!
# The subroutines of a class are compiled apart

A subroutine sees the variables of its class and its own, and of what is before it only the number
of branches and loops, from which its own are numbered. So the code of a class is made of the codes
that its subroutines have alone, with the numbers of the labels raised, and another order of the
subroutines gives the same blocks in that order.
-/

namespace Jack

open Vm Grammar Text

namespace Vm

/-- The name of a label, which is a word and a number, with the number raised by `k`. -/
def raisedName (k : Nat) (name : String) : String :=
  String.ofList (name.toList.takeWhile (!·.isDigit)) ++
    (decimalValue (name.toList.dropWhile (!·.isDigit)) + k).repr

/-- An instruction with the number in the label that it places or names raised by `k`. -/
def Instruction.raised (k : Nat) : Instruction → Instruction
  | .label name => .label (raisedName k name)
  | .goto name => .goto (raisedName k name)
  | .ifGoto name => .ifGoto (raisedName k name)
  | i => i

/-- Raising the name of a label raises the number behind its word. -/
lemma raisedName_append {word : String} (hw : word.toList.all (!·.isDigit) = true) (n k : Nat) :
    raisedName k (word ++ n.repr) = word ++ (n + k).repr := by
  rw [List.all_eq_true] at hw
  -- The number starts with a digit, so the word ends right before it.
  obtain ⟨d, ds, hn⟩ := List.exists_cons_of_ne_nil (Instruction.legible_repr n).nonempty
  have hd : d.isDigit = true := by
    apply Instruction.isDigit_of_mem_repr
    rw [hn]
    exact List.mem_cons_self
  have ht : n.repr.toList.takeWhile (!·.isDigit) = [] := by simp [hn, hd]
  have hr : n.repr.toList.dropWhile (!·.isDigit) = n.repr.toList := by simp [hn, hd]
  rw [raisedName, String.toList_append, List.takeWhile_append_of_pos hw,
    List.dropWhile_append_of_pos hw, ht, hr, List.append_nil, String.ofList_toList,
    Instruction.decimalValue_repr]

/-- The label of a false condition is raised to that of a later branch. -/
lemma raisedName_branchFalse (n k : Nat) :
    raisedName k (Engine.branchFalse n) = Engine.branchFalse (n + k) :=
  raisedName_append (by decide) n k

/-- The label at the end of a branch is raised to that of a later branch. -/
lemma raisedName_branchEnd (n k : Nat) :
    raisedName k (Engine.branchEnd n) = Engine.branchEnd (n + k) :=
  raisedName_append (by decide) n k

/-- The label at the top of a loop is raised to that of a later loop. -/
lemma raisedName_loopTop (n k : Nat) :
    raisedName k (Engine.loopTop n) = Engine.loopTop (n + k) :=
  raisedName_append (by decide) n k

/-- The label at the end of a loop is raised to that of a later loop. -/
lemma raisedName_loopEnd (n k : Nat) :
    raisedName k (Engine.loopEnd n) = Engine.loopEnd (n + k) :=
  raisedName_append (by decide) n k

/-- Straight code has no labels to raise. -/
lemma Straight.map_raised {is : List Instruction} (h : Straight is) (k : Nat) :
    is.map (Instruction.raised k) = is := by
  refine (List.map_congr_left fun i hi => ?_).trans (List.map_id is)
  have hs := h i hi
  cases i with
  | label name => exact hs.elim
  | goto name => exact hs.elim
  | ifGoto name => exact hs.elim
  | _ => rfl

end Vm

namespace Grammar

variable {c : Context}

mutual

/-- Branches and loops numbered from further on have their labels raised. -/
lemma Statement.code_add (s : Statement) (n k : Nat) :
    s.code c (n + k) = (s.code c n).map (Instruction.raised k) := by
  cases s with
  | assign name value => exact ((Statement.straight_assign name value n).map_raised k).symm
  | assignElement name index value =>
    exact ((Statement.straight_assignElement name index value n).map_raised k).symm
  | ifThen condition yes =>
    have hy := Statements.code_add yes (n + 1) k
    rw [Nat.add_right_comm] at hy
    simp [Statement.code, hy, condition.straight_code.map_raised k, Instruction.raised,
      raisedName_branchFalse, raisedName_branchEnd]
  | ifElse condition yes no =>
    have hy := Statements.code_add yes (n + 1) k
    have hn := Statements.code_add no (n + 1 + yes.labels) k
    rw [Nat.add_right_comm] at hy
    rw [Nat.add_right_comm _ _ k, Nat.add_right_comm n 1 k] at hn
    simp [Statement.code, hy, hn, condition.straight_code.map_raised k, Instruction.raised,
      raisedName_branchFalse, raisedName_branchEnd]
  | loop condition body =>
    have hb := Statements.code_add body (n + 1) k
    rw [Nat.add_right_comm] at hb
    simp [Statement.code, hb, condition.straight_code.map_raised k, Instruction.raised,
      raisedName_loopTop, raisedName_loopEnd]
  | invoke callee args => exact ((Statement.straight_invoke callee args n).map_raised k).symm
  | giveBack value =>
    simp [Statement.code, (straight_valueCode value).map_raised k, Instruction.raised]

/-- Statements whose labels start later have the same code with raised labels. -/
lemma Statements.code_add (ss : Statements) (n k : Nat) :
    ss.code c (n + k) = (ss.code c n).map (Instruction.raised k) := by
  cases ss with
  | nil => rfl
  | cons first rest =>
    have hf := Statement.code_add first n k
    have hr := Statements.code_add rest (n + first.labels) k
    rw [Nat.add_right_comm] at hr
    rw [Statements.code, Statements.code, hf, hr, List.map_append]

end

/-- A subroutine whose labels start later has the same code with raised labels. -/
lemma Subroutine.code_add (o : Options) (c : ClassDec) (s : Subroutine) (n k : Nat) :
    s.code o c (n + k) = (s.code o c n).map (Instruction.raised k) := by
  have hh : (s.head o c).map (Instruction.raised k) = s.head o c := by
    rw [head, prologue]
    cases s.kind <;> rfl
  have hc : s.closing.map (Instruction.raised k) = s.closing := by
    rw [closing]
    split <;> rfl
  rw [code, code, List.map_append, List.map_append, hh, hc, s.body.code_add]

/-- The code of subroutines is made of the codes that they have when they come first. -/
lemma ClassDec.codeFrom_eq (o : Options) (c : ClassDec) (ss : List Subroutine) (n : Nat) :
    c.codeFrom o n ss = (ss.mapIdx fun i s =>
      (s.code o c 0).map (Instruction.raised (n + labelsOf (ss.take i)))).flatten := by
  induction ss generalizing n with
  | nil => rfl
  | cons s ss ih =>
    have hs := s.code_add o c 0 n
    rw [Nat.zero_add] at hs
    rw [codeFrom, ih, hs, List.mapIdx_cons, List.flatten_cons]
    simp [labelsOf, Nat.add_assoc]

section

variable (o : Options) (name : String) (vars : List ClassVarDec)

/-- A subroutine does not see the others of its class. -/
lemma Subroutine.wellFormed_alone (ss : List Subroutine) (s : Subroutine) :
    s.WellFormed o ⟨name, vars, ss⟩ ↔ s.WellFormed o ⟨name, vars, [s]⟩ := by
  rw [wellFormed_iff, wellFormed_iff]
  rfl

/-- A subroutine has the code of a class that has no other subroutine. -/
lemma Subroutine.code_alone (ss : List Subroutine) (s : Subroutine) :
    s.code o ⟨name, vars, ss⟩ 0 = (ClassDec.mk name vars [s]).code o := by
  rw [ClassDec.code, ClassDec.codeFrom, ClassDec.codeFrom, List.append_nil]
  rfl

/-- A class with subroutines respects the rules where it does with each of them alone. -/
lemma ClassDec.wellFormed_iff_alone {ss : List Subroutine} (hne : ss ≠ []) :
    (ClassDec.mk name vars ss).WellFormed o ↔
      ∀ s ∈ ss, (ClassDec.mk name vars [s]).WellFormed o := by
  have hw : ∀ s ∈ ss, (ClassDec.mk name vars [s]).WellFormed o ↔
      Variable.Fit [] (ClassDec.mk name vars ss).declared ∧ s.WellFormed o ⟨name, vars, ss⟩ := by
    intro s _
    rw [wellFormed_iff, List.forall_mem_singleton, s.wellFormed_alone o name vars ss]
    rfl
  rw [wellFormed_iff]
  constructor
  · rintro ⟨hv, hs⟩ s hm
    exact (hw s hm).2 ⟨hv, hs s hm⟩
  · intro hs
    obtain ⟨first, rest, rfl⟩ := List.exists_cons_of_ne_nil hne
    refine ⟨((hw first List.mem_cons_self).1 (hs first List.mem_cons_self)).1, ?_⟩
    intro s hm
    exact ((hw s hm).1 (hs s hm)).2

/-- The code of a class is made of the codes that it has with each subroutine alone. -/
lemma ClassDec.code_ofFn {n : Nat} (s : Fin n → Subroutine) :
    (ClassDec.mk name vars (List.ofFn s)).code o = (List.ofFn fun i =>
      ((ClassDec.mk name vars [s i]).code o).map
        (Instruction.raised (labelsOf ((List.ofFn s).take i)))).flatten := by
  rw [code, codeFrom_eq]
  refine congrArg List.flatten (List.ext_getElem (by simp) ?_)
  intro i _ _
  simp [← Subroutine.code_alone o name vars (List.ofFn s)]

end

end Grammar

/-- A class with subroutines in any order compiles exactly where it does with each of them alone.
Its code then is made of the codes that it has with each of them alone, in the order of the
subroutines and with the numbers of labels raised by the number of branches and loops before. -/
theorem subroutines_compile_apart (o : Options) (name : String) (vars : List ClassVarDec) {n : Nat}
    (hn : 1 ≤ n) (s : Fin n → Subroutine) (alone : Fin n → List Token)
    (ha : ∀ i, (ClassDec.mk name vars [s i]).yield =
      ((alone i).map Token.kind).takeWhile (· ≠ .eof))
    (order : Equiv.Perm (Fin n)) (tokens : List Token)
    (ht : (ClassDec.mk name vars (List.ofFn (s ∘ order))).yield =
      (tokens.map Token.kind).takeWhile (· ≠ .eof)) :
    ((∃ x, (Engine.start o tokens).compileClass.1 = .ok x) ↔
      ∀ i, ∃ x, (Engine.start o (alone i)).compileClass.1 = .ok x) ∧
    ((∃ x, (Engine.start o tokens).compileClass.1 = .ok x) →
      (Engine.start o tokens).compileClass.2.code =
        (List.ofFn fun i => (Engine.start o (alone (order i))).compileClass.2.code.map
          (Instruction.raised (labelsOf ((List.ofFn (s ∘ order)).take i)))).flatten) := by
  have halone : ∀ i, (Compiles o (alone i) ↔ (ClassDec.mk name vars [s i]).WellFormed o) ∧
      ((ClassDec.mk name vars [s i]).WellFormed o →
        produced o (alone i) = (ClassDec.mk name vars [s i]).code o) :=
    fun i => ClassDec.Derives.compiles_iff (ha i)
  obtain ⟨hiff, hcode⟩ := ClassDec.Derives.compiles_iff (o := o) ht
  have heach : (ClassDec.mk name vars (List.ofFn (s ∘ order))).WellFormed o ↔
      ∀ i, (ClassDec.mk name vars [s i]).WellFormed o := by
    have hne : List.ofFn (s ∘ order) ≠ [] := by
      rw [Ne, List.ofFn_eq_nil_iff]
      omega
    rw [ClassDec.wellFormed_iff_alone o name vars hne, List.forall_mem_ofFn_iff]
    -- Every subroutine has a place in the order.
    constructor
    · intro h i
      simpa using h (order.symm i)
    · intro h i
      exact h (order i)
  constructor
  · exact hiff.trans (heach.trans (forall_congr' fun i => (halone i).1.symm))
  · intro h
    have hw := hiff.1 h
    have hblock : ∀ i, (Engine.start o (alone (order i))).compileClass.2.code =
        (ClassDec.mk name vars [s (order i)]).code o :=
      fun i => (halone (order i)).2 (heach.1 hw (order i))
    have hp : (Engine.start o tokens).compileClass.2.code = _ := hcode hw
    simp only [hp, hblock, ClassDec.code_ofFn, Function.comp_apply]

/-- The two subroutines of `Pace`, `down` with a loop and `clip` with a branch. -/
def paceParts : Fin 2 → Subroutine := pace.subroutines.get

/-- With its subroutines the other way round, the loop of `down` is numbered after the branch of
`clip`. -/
theorem subroutines_compile_apart_pace :
    (Engine.start {} (ClassDec.tokens ⟨"Pace", [], pace.subroutines.reverse⟩)).compileClass.2.code =
      (Engine.start {} (ClassDec.tokens ⟨"Pace", [], [paceParts 1]⟩)).compileClass.2.code.map
        (Instruction.raised 0) ++
      (Engine.start {} (ClassDec.tokens ⟨"Pace", [], [paceParts 0]⟩)).compileClass.2.code.map
        (Instruction.raised 1) ∧
    Instruction.raised 1 (.label "WHILE_EXP0") = .label "WHILE_EXP1" := by
  have hturn : List.ofFn (paceParts ∘ Equiv.swap 0 1) = pace.subroutines.reverse := by decide
  have hread := ClassDec.derives_tokens ⟨"Pace", [], List.ofFn (paceParts ∘ Equiv.swap 0 1)⟩
  obtain ⟨hiff, hcode⟩ := subroutines_compile_apart {} "Pace" [] (by decide) paceParts
    (fun i => ClassDec.tokens ⟨"Pace", [], [paceParts i]⟩)
    (fun i => ClassDec.derives_tokens _) (Equiv.swap 0 1) _ hread
  have hc := hcode (hread.compiles_iff.1.2 (by decide))
  have h0 : labelsOf (pace.subroutines.reverse.take 0) = 0 := by decide
  have h1 : labelsOf (pace.subroutines.reverse.take 1) = 1 := by decide
  refine ⟨?_, by decide⟩
  rw [hturn] at hc
  rw [hc, List.ofFn_succ, List.ofFn_succ, List.ofFn_zero]
  simp only [Fin.succ_zero_eq_one, Fin.val_zero, Fin.val_one, h0, h1, Equiv.swap_apply_left,
    Equiv.swap_apply_right, List.flatten_cons, List.flatten_nil, List.append_nil]

end Jack
