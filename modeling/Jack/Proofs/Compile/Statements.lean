import Jack.Proofs.Compile.Effect
import Jack.Proofs.Grammar.Script

/-!
# The compilation of expressions and statements

The script of an expression or of statements works out exactly where the static rules hold, and
produces the code of the derivation. It leads back to the point it started from, but that branches
and loops have taken their numbers.
-/

namespace Jack.Grammar

open Jack.Action
open Vm (Instruction)

/-- Actions work out exactly under a condition, and then produce some code and lead to a point. -/
structure Does (p : Point) (as : List Action) (ok : Prop) (is : List Instruction) (q : Point) :
    Prop where
  allowed : AllAllowed p as ↔ ok
  outputs : outputs p as = is
  after : after p as = q

attribute [local simp] take Action.Allowed Action.output Action.next

/-- An operator has the instruction of its meaning. -/
lemma Operator.meaning_instruction (runtime : Runtime) (op : Operator) :
    op.meaning.instruction runtime = op.instruction runtime := by
  cases op <;> rfl

/-- A word that is a term writes its code and changes nothing else. -/
lemma TermWord.does (w : TermWord) (p : Point) : Does p w.actions True w.code p := by
  cases w <;> exact ⟨by simp [TermWord.actions], rfl, rfl⟩

/-- Taking tokens writes no code. -/
lemma does_map_take (p : Point) (ks : List TokenKind) : Does p (ks.map take) True [] p := by
  induction ks with
  | nil => exact ⟨Iff.rfl, rfl, rfl⟩
  | cons k ks ih => exact ⟨by simpa using ih.allowed, ih.outputs, ih.after⟩

/-- A call passes its object, then its arguments. -/
lemma does_callScript {p : Point} {as : List Action} {ok : Prop} {is : List Instruction}
    (h : Does p as ok is p) (callee : Callee) (count : Nat) :
    Does p (callScript callee as count) (ok ∧ count + p.implicitArgs callee ≤ maxWord)
      (p.receiver callee ++ is ++ [p.invocation callee count]) p := by
  obtain ⟨ho, hi, ha⟩ := h
  obtain ⟨ko, ki, ka⟩ := does_map_take p (calleeYield callee)
  refine ⟨?_, ?_, ?_⟩
  · simp [callScript, ko, ka, ho, ha]
  · simp [callScript, ki, ka, hi, ha]
  · simp [callScript, ka, ha]

mutual

/-- A term writes its code exactly where it is valid. -/
lemma Term.does (t : Term) (p : Point) :
    Does p t.script (t.Valid p.toContext) (t.code p.toContext) p := by
  cases t with
  | integer value => exact ⟨by simp [Term.script, Term.Valid], rfl, rfl⟩
  | string body => exact ⟨by simp [Term.script, Term.Valid], by simp [Term.script, Term.code], rfl⟩
  | word w =>
    obtain ⟨ho, hi, ha⟩ := w.does p
    refine ⟨?_, ?_, ?_⟩
    · simp [Term.script, Term.Valid, ho, ha]
    · simp [Term.script, Term.code, hi, ha]
    · simp [Term.script, ha]
  | var name => exact ⟨by simp [Term.script, Term.Valid], by simp [Term.script, Term.code], rfl⟩
  | element name index =>
    obtain ⟨ho, hi, ha⟩ := Expr.does index p
    refine ⟨?_, ?_, ?_⟩
    · simp [Term.script, Term.Valid, ho, ha]
      -- The array is looked up before its index is read and again behind it.
      exact fun hd _ => hd
    · simp [Term.script, Term.code, readElement, hi, ha]
    · simp [Term.script, ha]
  | call callee args =>
    -- The arguments are counted without the object, the call with it, so the second bound is
    -- enough.
    obtain ⟨ho, hi, ha⟩ := does_callScript (Args.does args p) callee args.length
    refine ⟨?_, ?_, ?_⟩
    · simp [Term.script, Term.Valid, ho, ha]
      omega
    · simp [Term.script, Term.code, hi, ha]
    · simp [Term.script, ha]
  | group inner =>
    obtain ⟨ho, hi, ha⟩ := Expr.does inner p
    refine ⟨?_, ?_, ?_⟩
    · simp [Term.script, Term.Valid, ho, ha]
    · simp [Term.script, Term.code, hi, ha]
    · simp [Term.script, ha]
  | unary op operand =>
    obtain ⟨ho, hi, ha⟩ := Term.does operand p
    refine ⟨?_, ?_, ?_⟩
    · simp [Term.script, Term.Valid, ho, ha]
    · simp [Term.script, Term.code, hi, ha]
    · simp [Term.script, ha]

/-- An expression writes its code exactly where it is valid. -/
lemma Expr.does (x : Expr) (p : Point) :
    Does p x.script (x.Valid p.toContext) (x.code p.toContext) p := by
  cases x with
  | mk first rest =>
    obtain ⟨fo, fi, fa⟩ := Term.does first p
    obtain ⟨ro, ri, ra⟩ := Tail.does rest p
    refine ⟨?_, ?_, ?_⟩
    · simp [Expr.script, Expr.Valid, fo, fa, ro, ra]
    · simp [Expr.script, Expr.code, fi, fa, ri, ra]
    · simp [Expr.script, fa, ra]

/-- The rest of an expression writes its code exactly where it is valid. -/
lemma Tail.does (x : Tail) (p : Point) :
    Does p x.script (x.Valid p.toContext) (x.code p.toContext) p := by
  cases x with
  | nil => exact ⟨Iff.rfl, rfl, rfl⟩
  | cons op operand rest =>
    obtain ⟨fo, fi, fa⟩ := Term.does operand p
    obtain ⟨ro, ri, ra⟩ := Tail.does rest p
    refine ⟨?_, ?_, ?_⟩
    · simp [Tail.script, Tail.Valid, fo, fa, ro]
    · simp [Tail.script, Tail.code, fi, fa, ri, op.meaning_instruction]
    · simp [Tail.script, fa, ra]

/-- The number of arguments is checked after each of them, which comes to checking it once. -/
lemma Args.does (x : Args) (p : Point) :
    Does p (x.script 0) (x.Valid p.toContext ∧ x.length ≤ maxWord) (x.code p.toContext) p := by
  cases x with
  | nil => exact ⟨by simp [Args.script, Args.Valid, Args.length], rfl, rfl⟩
  | cons first rest =>
    obtain ⟨fo, fi, fa⟩ := Expr.does first p
    obtain ⟨ro, ri, ra⟩ := Args.doesMore rest p 1
    refine ⟨?_, ?_, ?_⟩
    -- The check after the last argument implies those before it.
    · simp only [Args.script, Args.Valid, Args.length, allAllowed_append, allAllowed_cons, fo, fa,
        ro, Action.Allowed, Action.next]
      grind
    · simp [Args.script, Args.code, fi, fa, ri]
    · simp [Args.script, fa, ra]

/-- Further arguments write their code exactly where they are valid and can be counted. -/
lemma Args.doesMore (x : Args) (p : Point) (count : Nat) :
    Does p (x.moreScript count)
      (x.Valid p.toContext ∧ (0 < x.length → count + x.length ≤ maxWord)) (x.code p.toContext)
      p := by
  cases x with
  | nil => exact ⟨by simp [Args.moreScript, Args.Valid, Args.length], rfl, rfl⟩
  | cons first rest =>
    obtain ⟨fo, fi, fa⟩ := Expr.does first p
    obtain ⟨ro, ri, ra⟩ := Args.doesMore rest p (count + 1)
    refine ⟨?_, ?_, ?_⟩
    · simp only [Args.moreScript, Args.Valid, Args.length, allAllowed_append, allAllowed_cons, fo,
        fa, ro, take, Action.Allowed, Action.next]
      grind
    · simp [Args.moreScript, Args.code, fi, fa, ri]
    · simp [Args.moreScript, fa, ra]

end

/-- The value of a `return` writes its code exactly where it is valid. -/
lemma does_valueScript (value : Option Expr) (p : Point) :
    Does p (valueScript value) (ValidValue p.toContext value) (valueCode p.toContext value) p := by
  cases value with
  | none => exact ⟨by simp [valueScript, ValidValue], rfl, rfl⟩
  | some value => exact value.does p

/-- Braces around actions write nothing. -/
lemma does_bracedScript {p q : Point} {as : List Action} {ok : Prop} {is : List Instruction}
    (h : Does p as ok is q) : Does p (bracedScript as) ok is q := by
  obtain ⟨ho, hi, ha⟩ := h
  refine ⟨?_, ?_, ?_⟩
  · simp [bracedScript, ho]
  · simp [bracedScript, hi]
  · simp [bracedScript, ha]

mutual

/-- A statement writes its code exactly where it is valid, and counts its labels. -/
lemma Statement.does (s : Statement) (p : Point) :
    Does p s.script (s.Valid p.toContext) (s.code p.toContext p.labels) (p.later s.labels) := by
  cases s with
  | assign name value =>
    obtain ⟨ho, hi, ha⟩ := value.does p
    refine ⟨?_, ?_, ?_⟩
    · simp [Statement.script, Statement.Valid, ho, ha]
      exact fun hd _ => hd
    · simp [Statement.script, Statement.code, hi, ha]
    · simp [Statement.script, Statement.labels, ha]
  | assignElement name index value =>
    obtain ⟨io, ii, ia⟩ := index.does p
    obtain ⟨vo, vi, va⟩ := value.does p
    refine ⟨?_, ?_, ?_⟩
    · simp [Statement.script, Statement.Valid, io, ia, vo]
      exact fun hd _ _ => hd
    · simp [Statement.script, Statement.code, writeElement, ii, ia, vi, va]
    · simp [Statement.script, Statement.labels, ia, va]
  | ifThen condition yes =>
    obtain ⟨co, ci, ca⟩ := condition.does p.inside
    obtain ⟨yo, yi, ya⟩ := does_bracedScript (Statements.does yes p.inside)
    refine ⟨?_, ?_, ?_⟩
    · simp [Statement.script, Statement.Valid, co, ca, yo]
    · simp [Statement.script, Statement.code, ci, ca, yi, ya]
    · simp [Statement.script, Statement.labels, ca, ya]
  | ifElse condition yes no =>
    obtain ⟨co, ci, ca⟩ := condition.does p.inside
    obtain ⟨yo, yi, ya⟩ := does_bracedScript (Statements.does yes p.inside)
    -- The second arm is numbered after all that is in the first one.
    obtain ⟨no', ni, na⟩ := does_bracedScript (Statements.does no (p.inside.later yes.labels))
    refine ⟨?_, ?_, ?_⟩
    · simp [Statement.script, Statement.Valid, co, ca, yo, ya, no']
    · simp [Statement.script, Statement.code, ci, ca, yi, ya, ni, na]
    · simp [Statement.script, Statement.labels, ca, ya, na, Nat.add_assoc]
  | loop condition body =>
    obtain ⟨co, ci, ca⟩ := condition.does p.inside
    obtain ⟨bo, bi, ba⟩ := does_bracedScript (Statements.does body p.inside)
    refine ⟨?_, ?_, ?_⟩
    · simp [Statement.script, Statement.Valid, co, ca, bo]
    · simp [Statement.script, Statement.code, ci, ca, bi, ba]
    · simp [Statement.script, Statement.labels, ca, ba]
  | invoke callee args =>
    obtain ⟨ho, hi, ha⟩ := does_callScript (args.does p) callee args.length
    refine ⟨?_, ?_, ?_⟩
    · simp [Statement.script, Statement.Valid, ho]
      omega
    · simp [Statement.script, Statement.code, hi, ha]
    · simp [Statement.script, Statement.labels, ha]
  | giveBack value =>
    obtain ⟨ho, hi, ha⟩ := does_valueScript value p
    refine ⟨?_, ?_, ?_⟩
    · simp [Statement.script, Statement.Valid, ho]
    · simp [Statement.script, Statement.code, hi, ha]
    · simp [Statement.script, Statement.labels, ha]

/-- Statements write their code exactly where they are valid, and count their labels. -/
lemma Statements.does (ss : Statements) (p : Point) :
    Does p ss.script (ss.Valid p.toContext) (ss.code p.toContext p.labels)
      (p.later ss.labels) := by
  cases ss with
  | nil => exact ⟨Iff.rfl, rfl, rfl⟩
  | cons first rest =>
    obtain ⟨fo, fi, fa⟩ := Statement.does first p
    obtain ⟨ro, ri, ra⟩ := Statements.does rest (p.later first.labels)
    refine ⟨?_, ?_, ?_⟩
    · simp [Statements.script, Statements.Valid, fo, fa, ro]
    · simp [Statements.script, Statements.code, fi, fa, ri]
    · simp [Statements.script, Statements.labels, fa, ra]

end

end Jack.Grammar
