import Jack.Proofs.Grammar.ParseTree
import Jack.Proofs.Grammar.Script
import Jack.Proofs.Parse.Prefix

/-!
# Marks in the parse tree

Three kinds of actions leave a mark in the parse tree: taking a token, and starting and ending a
node. The marks of the script of a derivation are those of its tree, read from left to right.
-/

namespace Jack

open Grammar

/-- What the parse tree has of an action. -/
inductive Mark where
  | opened (node : Node)
  | closed (node : Node)
  | leaf (kind : TokenKind)
  deriving DecidableEq, Repr

/-- The token of a mark, if it is a leaf. -/
def Mark.kind? : Mark → Option TokenKind
  | .leaf kind => some kind
  | _ => none

namespace Action

/-- The mark that an action leaves in the tree, if any. -/
def mark? : Action → Option Mark
  | .consume token => some (.leaf token.kind)
  | .openNode node => some (.opened node)
  | .closeNode node => some (.closed node)
  | _ => none

/-- The marks that actions leave in the tree. -/
def marks (as : List Action) : List Mark := as.filterMap mark?

variable (a : Action) (as bs : List Action)

/-- An empty list of actions leaves no marks. -/
@[simp] lemma marks_nil : marks [] = [] := rfl

/-- The mark of the first action comes first. -/
@[simp] lemma marks_cons : marks (a :: as) = a.mark?.toList ++ marks as := by
  cases h : a.mark? <;> simp [marks, h]

/-- Marks are left in order. -/
@[simp] lemma marks_append : marks (as ++ bs) = marks as ++ marks bs := List.filterMap_append

/-- The actions of the items of a list leave the marks of the items. -/
@[simp] lemma marks_flatMap {α : Type} (f : α → List Action) (xs : List α) :
    marks (xs.flatMap f) = xs.flatMap fun x => marks (f x) := by
  induction xs with
  | nil => rfl
  | cons x xs ih => simp [ih]

/-- Places leave no mark. -/
lemma marks_map_bare : marks (as.map bare) = marks as := by
  rw [marks, marks, List.filterMap_map]
  congr
  funext a
  cases a <;> rfl

/-- Each token that is taken leaves a mark of its kind. -/
lemma map_kind_taken : (taken as).map Token.kind = (marks as).filterMap Mark.kind? := by
  rw [taken, marks, List.map_filterMap, List.filterMap_filterMap]
  congr
  funext a
  cases a <;> rfl

end Action

open Jack.Action

/-! ## Marks of trees -/

namespace Grammar.ParseTree

mutual

/-- The marks of a tree, from its opening to its closing. -/
def marks : ParseTree → List Mark
  | .leaf token => [.leaf token]
  | .node label children => .opened label :: (forestMarks children ++ [.closed label])

/-- The marks of trees in a row. -/
def forestMarks : List ParseTree → List Mark
  | [] => []
  | tree :: trees => tree.marks ++ forestMarks trees

end

/-- The marks of the first trees come first. -/
@[simp] lemma forestMarks_append (ts us : List ParseTree) :
    forestMarks (ts ++ us) = forestMarks ts ++ forestMarks us := by
  induction ts with
  | nil => rfl
  | cons t ts ih => simp [forestMarks, ih]

/-- The marks of leaves are the leaves. -/
@[simp] lemma forestMarks_map_leaf (ks : List TokenKind) :
    forestMarks (ks.map leaf) = ks.map Mark.leaf := by
  induction ks with
  | nil => rfl
  | cons k ks ih => simp [forestMarks, marks, ih]

/-- The trees of the items of a list have the marks of the items in a row. -/
lemma forestMarks_map {α : Type} (tree : α → ParseTree) (xs : List α) :
    forestMarks (xs.map tree) = xs.flatMap fun x => (tree x).marks := by
  induction xs with
  | nil => rfl
  | cons x xs ih => simp [forestMarks, ih]

mutual

/-- The leaves among the marks of a tree are its leaves. -/
lemma filterMap_marks (t : ParseTree) : t.marks.filterMap Mark.kind? = t.leaves := by
  cases t with
  | leaf token => rfl
  | node label children =>
    rw [marks, List.filterMap_cons_none rfl, List.filterMap_append, filterMap_forestMarks children]
    exact List.append_nil _

/-- The leaves among the marks of trees are their leaves. -/
lemma filterMap_forestMarks (ts : List ParseTree) :
    (forestMarks ts).filterMap Mark.kind? = forestLeaves ts := by
  cases ts with
  | nil => rfl
  | cons t ts =>
    simp [forestMarks, forestLeaves, filterMap_marks t, filterMap_forestMarks ts]

end

end Grammar.ParseTree

/-! ## Marks of scripts -/

namespace Grammar

open ParseTree

/-- Taking a token leaves a leaf. -/
@[simp high] lemma marks_take_cons (k : TokenKind) (as : List Action) :
    Action.marks (take k :: as) = .leaf k :: Action.marks as := rfl

/-- Taking tokens leaves leaves. -/
@[simp] lemma marks_map_take (ks : List TokenKind) :
    Action.marks (ks.map take) = ks.map Mark.leaf := by
  induction ks with
  | nil => rfl
  | cons k ks ih => simp [ih]

/-- The code of a word leaves no marks. -/
lemma TermWord.marks_actions (w : TermWord) : Action.marks w.actions = [] := by
  cases w <;> rfl

attribute [local simp] mark? ParseTree.marks forestMarks conditionTrees

/-- A call leaves the marks of its trees, where its arguments do. -/
lemma marks_callScript (callee : Callee) (arguments : List Action) (count : Nat)
    {trees : List ParseTree} (h : Action.marks arguments = forestMarks trees) :
    Action.marks (callScript callee arguments count) = forestMarks (callTrees callee trees) := by
  simp [callScript, callTrees, h]

mutual

/-- A term leaves the marks of its tree. -/
lemma Term.marks_script (t : Term) : Action.marks t.script = t.tree.marks := by
  cases t with
  | word w => simp [Term.script, Term.tree, w.marks_actions]
  | element name index => simp [Term.script, Term.tree, index.marks_script]
  | call callee args =>
    simp [Term.script, Term.tree, marks_callScript callee _ _ (args.marks_script 0)]
  | group inner => simp [Term.script, Term.tree, inner.marks_script]
  | unary op operand => simp [Term.script, Term.tree, operand.marks_script]
  | _ => rfl

/-- An expression leaves the marks of its tree. -/
lemma Expr.marks_script (x : Expr) : Action.marks x.script = x.tree.marks := by
  cases x with
  | mk first rest => simp [Expr.script, Expr.tree, first.marks_script, rest.marks_script]

/-- The rest of an expression leaves the marks of its trees. -/
lemma Tail.marks_script (x : Tail) : Action.marks x.script = forestMarks x.trees := by
  cases x with
  | nil => rfl
  | cons op operand rest =>
    simp [Tail.script, Tail.trees, operand.marks_script, rest.marks_script]

/-- Arguments leave the marks of their trees. -/
lemma Args.marks_script (as : Args) (count : Nat) :
    Action.marks (as.script count) = forestMarks as.trees := by
  cases as with
  | nil => rfl
  | cons first rest =>
    simp [Args.script, Args.trees, first.marks_script, rest.marks_moreScript]

/-- Further arguments leave the marks of their trees. -/
lemma Args.marks_moreScript (as : Args) (count : Nat) :
    Action.marks (as.moreScript count) = forestMarks as.moreTrees := by
  cases as with
  | nil => rfl
  | cons first rest =>
    simp [Args.moreScript, Args.moreTrees, first.marks_script, rest.marks_moreScript]

end

/-- The value of a `return` leaves the marks of its trees. -/
lemma marks_valueScript (value : Option Expr) :
    Action.marks (valueScript value) = forestMarks (valueTrees value) := by
  cases value with
  | none => rfl
  | some value => simp [valueScript, valueTrees, value.marks_script]

/-- Statements in braces leave the marks of their trees, braces included. -/
lemma marks_bracedScript {statements : List Action} {trees : List ParseTree}
    (h : Action.marks statements = forestMarks trees) :
    Action.marks (bracedScript statements) = forestMarks (bracedTrees trees) := by
  simp [bracedScript, bracedTrees, h]

mutual

/-- A statement leaves the marks of its tree. -/
lemma Statement.marks_script (s : Statement) : Action.marks s.script = s.tree.marks := by
  cases s with
  | assign name value => simp [Statement.script, Statement.tree, value.marks_script]
  | assignElement name index value =>
    simp [Statement.script, Statement.tree, index.marks_script, value.marks_script]
  | ifThen condition yes =>
    simp [Statement.script, Statement.tree, condition.marks_script,
      marks_bracedScript yes.marks_script]
  | ifElse condition yes no =>
    simp [Statement.script, Statement.tree, condition.marks_script,
      marks_bracedScript yes.marks_script, marks_bracedScript no.marks_script]
  | loop condition body =>
    simp [Statement.script, Statement.tree, condition.marks_script,
      marks_bracedScript body.marks_script]
  | invoke callee args =>
    simp [Statement.script, Statement.tree, marks_callScript callee _ _ (args.marks_script 0)]
  | giveBack value => simp [Statement.script, Statement.tree, marks_valueScript]

/-- Statements leave the marks of their trees. -/
lemma Statements.marks_script (ss : Statements) :
    Action.marks ss.script = forestMarks ss.trees := by
  cases ss with
  | nil => rfl
  | cons first rest =>
    simp [Statements.script, Statements.trees, first.marks_script, rest.marks_script]

end

/-- Further names leave their tokens. -/
lemma marks_moreNames (type : String) (kind : SymbolKind) (names : List String) :
    Action.marks (names.flatMap fun name => take (.symbol ',') :: nameScript type kind name) =
      (moreNames names).map Mark.leaf := by
  induction names with
  | nil => rfl
  | cons name names ih =>
    rw [List.flatMap_cons, marks_append, ih]
    rfl

/-- A list of names leaves its tokens. -/
lemma Names.marks_script (n : Names) (kind : SymbolKind) :
    Action.marks (n.script kind) = n.yield.map Mark.leaf := by
  rw [Names.script, marks_take_cons, marks_append, marks_moreNames]
  rfl

/-- A declaration of the class leaves the marks of its tree. -/
lemma ClassVarDec.marks_script (d : ClassVarDec) : Action.marks d.script = d.tree.marks := by
  simp [ClassVarDec.script, ClassVarDec.tree, ClassVarDec.yield, d.names.marks_script]

/-- A `var` leaves the marks of its tree. -/
lemma marks_localsScript (n : Names) : Action.marks (localsScript n) = (localsTree n).marks := by
  simp [localsScript, localsTree, localsYield, n.marks_script]

/-- Further parameters leave their tokens. -/
lemma marks_moreParameters (ps : List Parameter) :
    Action.marks (ps.flatMap fun p => take (.symbol ',') :: p.script) =
      (moreParameters ps).map Mark.leaf := by
  induction ps with
  | nil => rfl
  | cons p ps ih =>
    rw [List.flatMap_cons, marks_append, ih]
    rfl

/-- Parameters leave their tokens. -/
lemma marks_parametersScript (ps : List Parameter) :
    Action.marks (parametersScript ps) = (parametersYield ps).map Mark.leaf := by
  cases ps with
  | nil => rfl
  | cons p ps =>
    rw [parametersScript, marks_append, marks_moreParameters]
    rfl

/-- However a subroutine ends, its statements and its body are closed around the brace. -/
lemma Subroutine.marks_closingScript (s : Subroutine) : Action.marks s.closingScript =
    [.closed .statements, .leaf (.symbol '}'), .closed .subroutineBody] := by
  rw [closingScript]
  split
  · rfl
  · split <;> rfl

/-- A subroutine leaves the marks of its tree. -/
lemma Subroutine.marks_script (s : Subroutine) : Action.marks s.script = s.tree.marks := by
  simp [Subroutine.script, Subroutine.tree, Subroutine.bodyTree, marks_parametersScript,
    marks_localsScript, forestMarks_map localsTree, s.body.marks_script, s.marks_closingScript]

/-- The script of a class records the tree of the class. -/
theorem ClassDec.marks_script (c : ClassDec) : Action.marks c.script = c.tree.marks := by
  simp [ClassDec.script, ClassDec.tree, ClassVarDec.marks_script, Subroutine.marks_script,
    forestMarks_map]

/-- The script of a class takes the tokens of the class. -/
lemma ClassDec.taken_script (c : ClassDec) : (taken c.script).map Token.kind = c.yield := by
  rw [map_kind_taken, c.marks_script, filterMap_marks, c.leaves_tree]

end Grammar

end Jack
