import Jack.Options
import Jack.Proofs.Grammar.Tree
import Jack.Symbol.Table
import Mathlib.Tactic.Lemma

/-!
# Static rules

What a derivation has to respect beyond the grammar. The declarations in force are two lists, one
for the class and one for the subroutine; within each, the place of a variable among those of its
kind is its number. A context holds the declarations together with the options and the name of the
class.
-/

namespace Jack.Grammar

/-- A declared variable. -/
structure Variable where
  name : String
  type : String
  kind : SymbolKind
  deriving DecidableEq, Repr

namespace Variable

/-- How many variables are of a kind. -/
def count (kind : SymbolKind) (vs : List Variable) : Nat := vs.countP (·.kind = kind)

/-- The variable that a name means, where the variables `before` have been declared earlier. -/
def findAfter (before : List Variable) (name : String) : List Variable → Option Symbol
  | [] => none
  | v :: vs =>
    if v.name = name then some ⟨v.type, v.kind, (count v.kind before).toUInt16⟩
    else findAfter (before ++ [v]) name vs

/-- The symbol of a variable: its type, its kind and its number among those of its kind. -/
def find? (vs : List Variable) (name : String) : Option Symbol := findAfter [] name vs

/-- The names of variables. -/
def names (vs : List Variable) : List String := vs.map name

end Variable

/-- The variables that a list of names declares. -/
def Names.declared (kind : SymbolKind) (n : Names) : List Variable :=
  (n.first :: n.more).map fun name => ⟨name, n.type.text, kind⟩

/-- The variables of a class. -/
def ClassDec.declared (c : ClassDec) : List Variable :=
  c.vars.flatMap fun d => d.names.declared d.storage.kind

namespace Subroutine

/-- The object that a method is called on, as its first argument. -/
def receiver (className : String) (s : Subroutine) : List Variable :=
  if s.kind = .method then [⟨"this", className, .argument⟩] else []

/-- The parameters and locals of a subroutine. -/
def written (s : Subroutine) : List Variable :=
  (s.params.map fun p => ⟨p.name, p.type.text, .argument⟩) ++
    s.locals.flatMap (Names.declared .localVar)

/-- The arguments and locals of a subroutine. -/
def declared (className : String) (s : Subroutine) : List Variable :=
  s.receiver className ++ s.written

end Subroutine

/-- What the meaning of statements depends on. -/
structure Context where
  options : Options
  className : String
  classVars : List Variable
  subVars : List Variable
  deriving DecidableEq, Repr

namespace Context

/-- The variable that a name means: one of the subroutine, or else one of the class. -/
def lookup? (c : Context) (name : String) : Option Symbol :=
  Variable.find? c.subVars name <|> Variable.find? c.classVars name

/-- Is a name declared, in the subroutine or in the class? -/
def Declared (c : Context) (name : String) : Prop :=
  name ∈ Variable.names c.subVars ∨ name ∈ Variable.names c.classVars

instance (c : Context) (name : String) : Decidable (c.Declared name) :=
  inferInstanceAs (Decidable (_ ∨ _))

/-- The number of arguments passed besides the written ones. -/
def implicitArgs (c : Context) : Callee → Nat
  | .own _ => 1
  | .member owner _ => if c.Declared owner then 1 else 0

end Context

/-- The largest number that a word can hold. -/
def maxWord : Nat := 65535

/-- A number is below the size of a word if it is at most the greatest word. -/
lemma lt_size_iff (n : Nat) : n < UInt16.size ↔ n ≤ maxWord := Nat.lt_succ_iff

/-- A number that fits in a word is what the word says. -/
lemma toNat_toUInt16 {n : Nat} (h : n ≤ maxWord) : n.toUInt16.toNat = n :=
  UInt16.toNat_ofNat_of_lt' ((lt_size_iff n).2 h)

mutual

/-- May a term stand where these variables are declared? -/
def Term.Valid (c : Context) : Term → Prop
  | .integer value => value ≤ c.options.maxInteger.toNat
  | .string body => body.length ≤ maxWord ∧ ∀ char ∈ body.toList, char.toNat ≤ maxWord
  | .word _ => True
  | .var name => c.Declared name
  | .element name index => c.Declared name ∧ index.Valid c
  | .call callee args => args.Valid c ∧ args.length + c.implicitArgs callee ≤ maxWord
  | .group inner => inner.Valid c
  | .unary _ operand => operand.Valid c

/-- May an expression stand where these variables are declared? -/
def Expr.Valid (c : Context) : Expr → Prop
  | .mk first rest => first.Valid c ∧ rest.Valid c

/-- May the rest of an expression stand where these variables are declared? -/
def Tail.Valid (c : Context) : Tail → Prop
  | .nil => True
  | .cons _ operand rest => operand.Valid c ∧ rest.Valid c

/-- May arguments stand where these variables are declared? -/
def Args.Valid (c : Context) : Args → Prop
  | .nil => True
  | .cons first rest => first.Valid c ∧ rest.Valid c

end

/-- May the value of a `return` stand where these variables are declared? -/
def ValidValue (c : Context) : Option Expr → Prop
  | none => True
  | some value => value.Valid c

mutual

/-- May a statement stand where these variables are declared? -/
def Statement.Valid (c : Context) : Statement → Prop
  | .assign name value => c.Declared name ∧ value.Valid c
  | .assignElement name index value => c.Declared name ∧ index.Valid c ∧ value.Valid c
  | .ifThen condition yes => condition.Valid c ∧ yes.Valid c
  | .ifElse condition yes no => condition.Valid c ∧ yes.Valid c ∧ no.Valid c
  | .loop condition body => condition.Valid c ∧ body.Valid c
  | .invoke callee args => args.Valid c ∧ args.length + c.implicitArgs callee ≤ maxWord
  | .giveBack value => ValidValue c value

/-- May statements stand where these variables are declared? -/
def Statements.Valid (c : Context) : Statements → Prop
  | .nil => True
  | .cons first rest => first.Valid c ∧ rest.Valid c

end

/-- Is a statement a `return`? -/
def Statement.isReturn : Statement → Bool
  | .giveBack _ => true
  | _ => false

/-- Is the last of some statements a return? `before` is the answer where there is none. -/
def Statements.returnsAfter (before : Bool) : Statements → Bool
  | .nil => before
  | .cons first rest => rest.returnsAfter first.isReturn

/-- Is the last statement a `return`? -/
def Statements.endsInReturn (ss : Statements) : Bool := ss.returnsAfter false

/-- What is declared around the body of a subroutine. -/
def Subroutine.context (o : Options) (c : ClassDec) (s : Subroutine) : Context :=
  ⟨o, c.name, c.declared, s.declared c.name⟩

/-- A subroutine whose variables fit, whose body is valid, and which returns where it has to. -/
structure Subroutine.WellFormed (o : Options) (c : ClassDec) (s : Subroutine) : Prop where
  /-- Parameters and locals have different names. -/
  distinct : (Variable.names s.written).Nodup
  /-- In a method none of them is called as the object is. -/
  notThis : s.kind = .method → "this" ∉ Variable.names s.written
  /-- There are enough numbers for them. -/
  few : ∀ kind, Variable.count kind (s.declared c.name) ≤ maxWord
  body : s.body.Valid (s.context o c)
  /-- Only a constructor may go without a return at its end. -/
  returns : s.kind ≠ .constructor → s.body.endsInReturn = true

/-- A class whose variables fit and whose subroutines are well formed. -/
structure ClassDec.WellFormed (o : Options) (c : ClassDec) : Prop where
  distinct : (Variable.names c.declared).Nodup
  /-- There are enough numbers for them. -/
  few : ∀ kind, Variable.count kind c.declared ≤ maxWord
  subroutines : ∀ s ∈ c.subroutines, s.WellFormed o c

/-! ## Deciding the rules -/

instance {P : SymbolKind → Prop} [DecidablePred P] : Decidable (∀ kind, P kind) :=
  decidable_of_iff (∀ kind ∈ SymbolKind.all, P kind)
    ⟨fun h kind => h kind (by cases kind <;> decide), fun h kind _ => h kind⟩

mutual

/-- It can be decided whether a term is valid. -/
def Term.decideValid (c : Context) : (t : Term) → Decidable (t.Valid c)
  | .integer value => inferInstanceAs (Decidable (value ≤ c.options.maxInteger.toNat))
  | .string body =>
    inferInstanceAs (Decidable (body.length ≤ maxWord ∧ ∀ char ∈ body.toList, char.toNat ≤ maxWord))
  | .word _ => .isTrue trivial
  | .var name => inferInstanceAs (Decidable (c.Declared name))
  | .element name index =>
    have := index.decideValid c
    inferInstanceAs (Decidable (c.Declared name ∧ index.Valid c))
  | .call callee args =>
    have := args.decideValid c
    inferInstanceAs (Decidable (args.Valid c ∧ args.length + c.implicitArgs callee ≤ maxWord))
  | .group inner => inner.decideValid c
  | .unary _ operand => operand.decideValid c

/-- It can be decided whether an expression is valid. -/
def Expr.decideValid (c : Context) : (x : Expr) → Decidable (x.Valid c)
  | .mk first rest =>
    have := first.decideValid c
    have := rest.decideValid c
    inferInstanceAs (Decidable (first.Valid c ∧ rest.Valid c))

/-- It can be decided whether the rest of an expression is valid. -/
def Tail.decideValid (c : Context) : (x : Tail) → Decidable (x.Valid c)
  | .nil => .isTrue trivial
  | .cons _ operand rest =>
    have := operand.decideValid c
    have := rest.decideValid c
    inferInstanceAs (Decidable (operand.Valid c ∧ rest.Valid c))

/-- It can be decided whether arguments are valid. -/
def Args.decideValid (c : Context) : (as : Args) → Decidable (as.Valid c)
  | .nil => .isTrue trivial
  | .cons first rest =>
    have := first.decideValid c
    have := rest.decideValid c
    inferInstanceAs (Decidable (first.Valid c ∧ rest.Valid c))

end

instance (c : Context) (x : Expr) : Decidable (x.Valid c) := x.decideValid c

instance (c : Context) (as : Args) : Decidable (as.Valid c) := as.decideValid c

instance (c : Context) : (value : Option Expr) → Decidable (ValidValue c value)
  | none => .isTrue trivial
  | some value => value.decideValid c

mutual

/-- It can be decided whether a statement is valid. -/
def Statement.decideValid (c : Context) : (s : Statement) → Decidable (s.Valid c)
  | .assign name value => inferInstanceAs (Decidable (c.Declared name ∧ value.Valid c))
  | .assignElement name index value =>
    inferInstanceAs (Decidable (c.Declared name ∧ index.Valid c ∧ value.Valid c))
  | .ifThen condition yes =>
    have := yes.decideValid c
    inferInstanceAs (Decidable (condition.Valid c ∧ yes.Valid c))
  | .ifElse condition yes no =>
    have := yes.decideValid c
    have := no.decideValid c
    inferInstanceAs (Decidable (condition.Valid c ∧ yes.Valid c ∧ no.Valid c))
  | .loop condition body =>
    have := body.decideValid c
    inferInstanceAs (Decidable (condition.Valid c ∧ body.Valid c))
  | .invoke callee args =>
    inferInstanceAs (Decidable (args.Valid c ∧ args.length + c.implicitArgs callee ≤ maxWord))
  | .giveBack value => inferInstanceAs (Decidable (ValidValue c value))

/-- It can be decided whether statements are valid. -/
def Statements.decideValid (c : Context) : (ss : Statements) → Decidable (ss.Valid c)
  | .nil => .isTrue trivial
  | .cons first rest =>
    have := first.decideValid c
    have := rest.decideValid c
    inferInstanceAs (Decidable (first.Valid c ∧ rest.Valid c))

end

instance (c : Context) (ss : Statements) : Decidable (ss.Valid c) := ss.decideValid c

instance (o : Options) (c : ClassDec) (s : Subroutine) : Decidable (s.WellFormed o c) :=
  decidable_of_iff
    ((Variable.names s.written).Nodup ∧
      (s.kind = .method → "this" ∉ Variable.names s.written) ∧
      (∀ kind, Variable.count kind (s.declared c.name) ≤ maxWord) ∧
      s.body.Valid (s.context o c) ∧ (s.kind ≠ .constructor → s.body.endsInReturn = true))
    ⟨fun ⟨distinct, notThis, few, body, returns⟩ => ⟨distinct, notThis, few, body, returns⟩,
      fun ⟨distinct, notThis, few, body, returns⟩ => ⟨distinct, notThis, few, body, returns⟩⟩

instance (o : Options) (c : ClassDec) : Decidable (c.WellFormed o) :=
  decidable_of_iff
    ((Variable.names c.declared).Nodup ∧ (∀ kind, Variable.count kind c.declared ≤ maxWord) ∧
      ∀ s ∈ c.subroutines, s.WellFormed o c)
    ⟨fun ⟨distinct, few, subroutines⟩ => ⟨distinct, few, subroutines⟩,
      fun ⟨distinct, few, subroutines⟩ => ⟨distinct, few, subroutines⟩⟩

end Jack.Grammar
