import Jack.Proofs.Grammar.Tree
import Mathlib.Tactic.Lemma

/-!
# Parse trees of derivations

The parse tree of a derivation has an element for each of fifteen nonterminals; types, names, calls
and operators have none of their own, so their tokens stand in the element around them. Its text has
one line for each token and two for each element, and every level is indented by two spaces.
-/

namespace Jack.Grammar

/-- A token, or an element with what is in it. -/
inductive ParseTree where
  | leaf (token : TokenKind)
  | node (label : Node) (children : List ParseTree)
  deriving Repr

/-! ## The text of a tree -/

/-- The characters that stand for themselves nowhere in the text. -/
def entities : List (Char × String) :=
  [('<', "&lt;"), ('>', "&gt;"), ('&', "&amp;"), ('"', "&quot;")]

/-- A text with its special characters escaped. -/
def escaped (text : String) : String :=
  String.join (text.toList.map fun c => (entities.lookup c).getD (String.singleton c))

/-- A value between the tags of its kind. -/
def tagged (tag value : String) : String :=
  "<" ++ tag ++ "> " ++ escaped value ++ " </" ++ tag ++ ">"

/-- The line of a token. -/
def terminal : TokenKind → String
  | .keyword k => tagged "keyword" k.text
  | .symbol c => tagged "symbol" (String.singleton c)
  | .integer value => tagged "integerConstant" value.repr
  | .string body => tagged "stringConstant" body
  | .identifier name => tagged "identifier" name
  | .eof | .error _ => ""

/-- Two spaces for each level. -/
def indent (depth : Nat) : String := String.ofList (List.replicate (2 * depth) ' ')

namespace ParseTree

mutual

/-- The lines of a tree with `depth` elements around it. -/
def lines (depth : Nat) : ParseTree → List String
  | .leaf token => [indent depth ++ terminal token]
  | .node label children =>
    (indent depth ++ ("<" ++ label.tag ++ ">")) ::
      (forestLines (depth + 1) children ++ [indent depth ++ ("</" ++ label.tag ++ ">")])

/-- The lines of trees in a row, at a depth. -/
def forestLines (depth : Nat) : List ParseTree → List String
  | [] => []
  | tree :: trees => tree.lines depth ++ forestLines depth trees

end

/-- The text of a tree, with a line feed behind each line. -/
def text (tree : ParseTree) : String := String.join ((tree.lines 0).map (· ++ "\n"))

mutual

/-- The tokens of a tree from left to right. -/
def leaves : ParseTree → List TokenKind
  | .leaf token => [token]
  | .node _ children => forestLeaves children

/-- The leaves of trees in a row. -/
def forestLeaves : List ParseTree → List TokenKind
  | [] => []
  | tree :: trees => tree.leaves ++ forestLeaves trees

end

/-- The leaves of the first trees come first. -/
@[simp] lemma forestLeaves_append (ts us : List ParseTree) :
    forestLeaves (ts ++ us) = forestLeaves ts ++ forestLeaves us := by
  induction ts with
  | nil => rfl
  | cons t ts ih => simp [forestLeaves, ih]

/-- The leaves of leaves are the leaves. -/
@[simp] lemma forestLeaves_map_leaf (ks : List TokenKind) : forestLeaves (ks.map leaf) = ks := by
  induction ks with
  | nil => rfl
  | cons k ks ih => simp [forestLeaves, leaves, ih]

end ParseTree

open ParseTree

/-! ## The tree of a derivation -/

/-- A call, given the trees of its arguments. -/
def callTrees (callee : Callee) (arguments : List ParseTree) : List ParseTree :=
  (calleeYield callee).map leaf ++
    [leaf (.symbol '('), node .expressionList arguments, leaf (.symbol ')')]

mutual

/-- The tree of a term. -/
def Term.tree : Term → ParseTree
  | .integer value => node .term [leaf (.integer value)]
  | .string body => node .term [leaf (.string body)]
  | .word w => node .term [leaf (.keyword w.keyword)]
  | .var name => node .term [leaf (.identifier name)]
  | .element name index =>
    node .term
      [leaf (.identifier name), leaf (.symbol '['), index.tree, leaf (.symbol ']')]
  | .call callee args => node .term (callTrees callee args.trees)
  | .group inner => node .term [leaf (.symbol '('), inner.tree, leaf (.symbol ')')]
  | .unary op operand => node .term [leaf (.symbol op.symbol), operand.tree]

/-- The tree of an expression. -/
def Expr.tree : Expr → ParseTree
  | .mk first rest => node .expression (first.tree :: rest.trees)

/-- The trees of the operators and operands behind the first one. -/
def Tail.trees : Tail → List ParseTree
  | .nil => []
  | .cons op operand rest => leaf (.symbol op.symbol) :: operand.tree :: rest.trees

/-- The trees of arguments, with the commas between them. -/
def Args.trees : Args → List ParseTree
  | .nil => []
  | .cons first rest => first.tree :: rest.moreTrees

/-- The trees of arguments after a first one. -/
def Args.moreTrees : Args → List ParseTree
  | .nil => []
  | .cons first rest => leaf (.symbol ',') :: first.tree :: rest.moreTrees

end

/-- The tree of the value of a `return`, if it has one. -/
def valueTrees : Option Expr → List ParseTree
  | none => []
  | some value => [value.tree]

/-- Statements in braces. -/
def bracedTrees (statements : List ParseTree) : List ParseTree :=
  [leaf (.symbol '{'), node .statements statements, leaf (.symbol '}')]

/-- A condition in parentheses after the keyword of a statement. -/
def conditionTrees (k : Keyword) (condition : Expr) : List ParseTree :=
  [leaf (.keyword k), leaf (.symbol '('), condition.tree, leaf (.symbol ')')]

mutual

/-- The tree of a statement. -/
def Statement.tree : Statement → ParseTree
  | .assign name value =>
    node .letStatement
      [leaf (.keyword .letKw), leaf (.identifier name), leaf (.symbol '='), value.tree,
        leaf (.symbol ';')]
  | .assignElement name index value =>
    node .letStatement
      [leaf (.keyword .letKw), leaf (.identifier name), leaf (.symbol '['), index.tree,
        leaf (.symbol ']'), leaf (.symbol '='), value.tree, leaf (.symbol ';')]
  | .ifThen condition yes =>
    node .ifStatement (conditionTrees .ifKw condition ++ bracedTrees yes.trees)
  | .ifElse condition yes no =>
    node .ifStatement (conditionTrees .ifKw condition ++ bracedTrees yes.trees ++
      leaf (.keyword .elseKw) :: bracedTrees no.trees)
  | .loop condition body =>
    node .whileStatement (conditionTrees .whileKw condition ++ bracedTrees body.trees)
  | .invoke callee args =>
    node .doStatement
      (leaf (.keyword .doKw) :: callTrees callee args.trees ++ [leaf (.symbol ';')])
  | .giveBack value =>
    node .returnStatement
      (leaf (.keyword .returnKw) :: valueTrees value ++ [leaf (.symbol ';')])

/-- The trees of statements. -/
def Statements.trees : Statements → List ParseTree
  | .nil => []
  | .cons first rest => first.tree :: rest.trees

end

/-- The tree of a declaration of the class. -/
def ClassVarDec.tree (d : ClassVarDec) : ParseTree := node .classVarDec (d.yield.map leaf)

/-- The tree of a `var`. -/
def localsTree (n : Names) : ParseTree := node .varDec ((localsYield n).map leaf)

/-- The tree of what stands in the braces of a subroutine. -/
def Subroutine.bodyTree (s : Subroutine) : ParseTree :=
  node .subroutineBody (leaf (.symbol '{') :: s.locals.map localsTree ++
    [node .statements s.body.trees, leaf (.symbol '}')])

/-- The tree of a subroutine. -/
def Subroutine.tree (s : Subroutine) : ParseTree :=
  node .subroutineDec
    [leaf (.keyword (kindKeyword s.kind)), leaf (resultToken s.result), leaf (.identifier s.name),
      leaf (.symbol '('), node .parameterList ((parametersYield s.params).map leaf),
      leaf (.symbol ')'), s.bodyTree]

/-- The tree of a class. -/
def ClassDec.tree (c : ClassDec) : ParseTree :=
  node .wholeClass (leaf (.keyword .classKw) :: leaf (.identifier c.name) :: leaf (.symbol '{') ::
    (c.vars.map ClassVarDec.tree ++ c.subroutines.map Subroutine.tree ++ [leaf (.symbol '}')]))

/-! ## The tokens of the tree -/

attribute [local simp] leaves forestLeaves conditionTrees bracedTrees

/-- The leaves of a call are its tokens. -/
@[simp] lemma forestLeaves_callTrees (callee : Callee) (arguments : List ParseTree) :
    forestLeaves (callTrees callee arguments) =
      calleeYield callee ++ .symbol '(' :: (forestLeaves arguments ++ [.symbol ')']) := by
  simp [callTrees]

mutual

/-- The leaves of a term are its tokens. -/
lemma Term.leaves_tree (t : Term) : t.tree.leaves = t.yield := by
  cases t with
  | element name index => simp [Term.tree, Term.yield, index.leaves_tree]
  | call callee args => simp [Term.tree, Term.yield, args.leaves_trees]
  | group inner => simp [Term.tree, Term.yield, inner.leaves_tree]
  | unary op operand => simp [Term.tree, Term.yield, operand.leaves_tree]
  | _ => rfl

/-- The leaves of an expression are its tokens. -/
lemma Expr.leaves_tree (x : Expr) : x.tree.leaves = x.yield := by
  cases x with
  | mk first rest => simp [Expr.tree, Expr.yield, first.leaves_tree, rest.leaves_trees]

/-- The leaves of the rest of an expression are its tokens. -/
lemma Tail.leaves_trees (x : Tail) : forestLeaves x.trees = x.yield := by
  cases x with
  | nil => rfl
  | cons op operand rest =>
    simp [Tail.trees, Tail.yield, operand.leaves_tree, rest.leaves_trees]

/-- The leaves of arguments are their tokens. -/
lemma Args.leaves_trees (as : Args) : forestLeaves as.trees = as.yield := by
  cases as with
  | nil => rfl
  | cons first rest =>
    simp [Args.trees, Args.yield, first.leaves_tree, rest.leaves_moreTrees]

/-- The leaves of further arguments are their tokens, commas included. -/
lemma Args.leaves_moreTrees (as : Args) : forestLeaves as.moreTrees = as.more := by
  cases as with
  | nil => rfl
  | cons first rest =>
    simp [Args.moreTrees, Args.more, first.leaves_tree, rest.leaves_moreTrees]

end

/-- The leaves of the value of a `return` are its tokens. -/
lemma leaves_valueTrees (value : Option Expr) :
    forestLeaves (valueTrees value) = valueYield value := by
  cases value with
  | none => rfl
  | some value => simp [valueTrees, valueYield, value.leaves_tree]

mutual

/-- The leaves of a statement are its tokens. -/
lemma Statement.leaves_tree (s : Statement) : s.tree.leaves = s.yield := by
  cases s with
  | assign name value => simp [Statement.tree, Statement.yield, value.leaves_tree]
  | assignElement name index value =>
    simp [Statement.tree, Statement.yield, index.leaves_tree, value.leaves_tree]
  | ifThen condition yes =>
    simp [Statement.tree, Statement.yield, condition.leaves_tree, yes.leaves_trees]
  | ifElse condition yes no =>
    simp [Statement.tree, Statement.yield, condition.leaves_tree, yes.leaves_trees, no.leaves_trees]
  | loop condition body =>
    simp [Statement.tree, Statement.yield, condition.leaves_tree, body.leaves_trees]
  | invoke callee args => simp [Statement.tree, Statement.yield, args.leaves_trees]
  | giveBack value => simp [Statement.tree, Statement.yield, leaves_valueTrees]

/-- The leaves of statements are their tokens. -/
lemma Statements.leaves_trees (ss : Statements) : forestLeaves ss.trees = ss.yield := by
  cases ss with
  | nil => rfl
  | cons first rest =>
    simp [Statements.trees, Statements.yield, first.leaves_tree, rest.leaves_trees]

end

/-- Elements next to each other have their tokens next to each other. -/
lemma leaves_map {α : Type} {tree : α → ParseTree} {yield : α → List TokenKind}
    (h : ∀ x, (tree x).leaves = yield x) (xs : List α) :
    forestLeaves (xs.map tree) = xs.flatMap yield := by
  induction xs with
  | nil => rfl
  | cons x xs ih => simp [h x, ih]

/-- The leaves of a declaration of the class are its tokens. -/
lemma ClassVarDec.leaves_tree (d : ClassVarDec) : d.tree.leaves = d.yield :=
  forestLeaves_map_leaf d.yield

/-- The leaves of a `var` are its tokens. -/
lemma leaves_localsTree (n : Names) : (localsTree n).leaves = localsYield n :=
  forestLeaves_map_leaf (localsYield n)

/-- The leaves of a subroutine are its tokens. -/
lemma Subroutine.leaves_tree (s : Subroutine) : s.tree.leaves = s.yield := by
  simp [Subroutine.tree, Subroutine.bodyTree, Subroutine.yield, leaves_map leaves_localsTree,
    s.body.leaves_trees]

/-- The tokens of the tree of a class are the tokens of the class. -/
theorem ClassDec.leaves_tree (c : ClassDec) : c.tree.leaves = c.yield := by
  simp [ClassDec.tree, ClassDec.yield, leaves_map ClassVarDec.leaves_tree,
    leaves_map Subroutine.leaves_tree]

end Jack.Grammar
