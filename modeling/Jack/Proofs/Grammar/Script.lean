import Jack.Proofs.Grammar.Rules
import Jack.Proofs.Parse.Kinds

/-!
# The script of a derivation

The actions that following the grammar over a derivation asks for, by recursion over the
derivation and without places. This is the order in which tokens are taken, nodes of the parse tree
start and end, and code is produced.
-/

namespace Jack.Grammar

/-- Takes a token of a kind. -/
def take (k : TokenKind) : Action := .consume k.bare

/-- The operation that an operator stands for. -/
def Operator.meaning : Operator → BinaryOp
  | .plus => .native .add
  | .minus => .native .sub
  | .and => .native .and
  | .or => .native .or
  | .less => .native .lt
  | .greater => .native .gt
  | .equal => .native .eq
  | .times => .multiply
  | .divide => .divide

/-- The code of the words that are terms. -/
def TermWord.actions : TermWord → List Action
  | .trueWord => [.emit (.push .constant 0), .emit (.arithmetic .not)]
  | .falseWord => [.emit (.push .constant 0)]
  | .nullWord => [.emit (.push .constant 0)]
  | .thisWord => [.thisObject nowhere]

/-- The actions of a call, given those of its arguments. -/
def callScript (callee : Callee) (arguments : List Action) (count : Nat) : List Action :=
  (calleeYield callee).map take ++ [.receiver callee nowhere, take (.symbol '('),
    .openNode .expressionList] ++ arguments ++
    [.closeNode .expressionList, take (.symbol ')'), .call callee count nowhere]

mutual

/-- The actions of a term. -/
def Term.script : Term → List Action
  | .integer value =>
    [.openNode .term, take (.integer value), .integer value nowhere, .closeNode .term]
  | .string body =>
    [.openNode .term, take (.string body), .string body nowhere, .closeNode .term]
  | .word w => .openNode .term :: (w.actions ++ [take (.keyword w.keyword), .closeNode .term])
  | .var name =>
    [.openNode .term, take (.identifier name), .load name nowhere, .closeNode .term]
  | .element name index =>
    [.openNode .term, take (.identifier name), take (.symbol '['), .require name nowhere] ++
      index.script ++
      [take (.symbol ']'), .load name nowhere, .emit (.arithmetic .add), .emit (.pop .pointer 1),
        .emit (.push .thatCell 0), .closeNode .term]
  | .call callee args =>
    .openNode .term :: (callScript callee (args.script 0) args.length ++ [.closeNode .term])
  | .group inner =>
    [.openNode .term, take (.symbol '(')] ++ inner.script ++
      [take (.symbol ')'), .closeNode .term]
  | .unary op operand =>
    [.openNode .term, take (.symbol op.symbol)] ++ operand.script ++
      [.emit (.arithmetic op.op), .closeNode .term]

/-- The actions of an expression. -/
def Expr.script : Expr → List Action
  | .mk first rest =>
    .openNode .expression :: (first.script ++ (rest.script ++ [.closeNode .expression]))

/-- The actions of the operators and operands behind the first one. -/
def Tail.script : Tail → List Action
  | .nil => []
  | .cons op operand rest =>
    take (.symbol op.symbol) :: (operand.script ++ .operate op.meaning :: rest.script)

/-- The actions of arguments after `count` earlier ones, the first of them without a comma. -/
def Args.script (count : Nat) : Args → List Action
  | .nil => []
  | .cons first rest =>
    first.script ++ .countArgument (count + 1) nowhere :: rest.moreScript (count + 1)

/-- The actions of arguments after `count` earlier ones. -/
def Args.moreScript (count : Nat) : Args → List Action
  | .nil => []
  | .cons first rest =>
    take (.symbol ',') ::
      (first.script ++ .countArgument (count + 1) nowhere :: rest.moreScript (count + 1))

end

/-- The actions of the value of a `return`, which is zero where none is given. -/
def valueScript : Option Expr → List Action
  | none => [.emit (.push .constant 0)]
  | some value => value.script

/-- The actions of statements in braces, given those of the statements. -/
def bracedScript (statements : List Action) : List Action :=
  [take (.symbol '{'), .openNode .statements] ++ statements ++
    [.closeNode .statements, take (.symbol '}')]

mutual

/-- The actions of a statement. -/
def Statement.script : Statement → List Action
  | .assign name value =>
    [.openNode .letStatement, take (.keyword .letKw), take (.identifier name),
      .require name nowhere, take (.symbol '=')] ++ value.script ++
      [take (.symbol ';'), .store name nowhere, .closeNode .letStatement]
  | .assignElement name index value =>
    [.openNode .letStatement, take (.keyword .letKw), take (.identifier name),
      .require name nowhere, take (.symbol '[')] ++ index.script ++
      [take (.symbol ']'), .load name nowhere, .emit (.arithmetic .add), take (.symbol '=')] ++
      value.script ++
      [take (.symbol ';'), .emit (.pop .temp 0), .emit (.pop .pointer 1), .emit (.push .temp 0),
        .emit (.pop .thatCell 0), .closeNode .letStatement]
  | .ifThen condition yes =>
    [.openLabels, .openNode .ifStatement, take (.keyword .ifKw), take (.symbol '(')] ++
      condition.script ++ [take (.symbol ')'), .branchTest] ++ bracedScript yes.script ++
      [.branchElse, .branchEnd, .closeNode .ifStatement]
  | .ifElse condition yes no =>
    [.openLabels, .openNode .ifStatement, take (.keyword .ifKw), take (.symbol '(')] ++
      condition.script ++ [take (.symbol ')'), .branchTest] ++ bracedScript yes.script ++
      [.branchElse, take (.keyword .elseKw)] ++ bracedScript no.script ++
      [.branchEnd, .closeNode .ifStatement]
  | .loop condition body =>
    [.openLabels, .openNode .whileStatement, take (.keyword .whileKw), .loopTop,
      take (.symbol '(')] ++
      condition.script ++ [take (.symbol ')'), .loopTest] ++ bracedScript body.script ++
      [.loopEnd, .closeNode .whileStatement]
  | .invoke callee args =>
    [.openNode .doStatement, take (.keyword .doKw)] ++
      callScript callee (args.script 0) args.length ++
      [take (.symbol ';'), .emit (.pop .temp 0), .closeNode .doStatement]
  | .giveBack value =>
    [.openNode .returnStatement, take (.keyword .returnKw)] ++ valueScript value ++
      [take (.symbol ';'), .emit .ret, .closeNode .returnStatement]

/-- The actions of statements. -/
def Statements.script : Statements → List Action
  | .nil => []
  | .cons first rest => first.script ++ rest.script

end

/-- The actions of a declared name. -/
def nameScript (type : String) (kind : SymbolKind) (name : String) : List Action :=
  [take (.identifier name), .declare name type kind nowhere]

/-- The actions of a list of names with their type. -/
def Names.script (kind : SymbolKind) (n : Names) : List Action :=
  take n.type.token :: (nameScript n.type.text kind n.first ++
    n.more.flatMap fun name => take (.symbol ',') :: nameScript n.type.text kind name)

/-- The actions of a declaration of the class. -/
def ClassVarDec.script (d : ClassVarDec) : List Action :=
  [.openNode .classVarDec, take (.keyword d.storage.keyword)] ++ d.names.script d.storage.kind ++
    [take (.symbol ';'), .closeNode .classVarDec]

/-- The actions of a `var`. -/
def localsScript (n : Names) : List Action :=
  [.openNode .varDec, take (.keyword .varKw)] ++ n.script .localVar ++
    [take (.symbol ';'), .closeNode .varDec]

/-- The actions of a parameter. -/
def Parameter.script (p : Parameter) : List Action :=
  take p.type.token :: nameScript p.type.text .argument p.name

/-- The actions of parameters, with the commas between them. -/
def parametersScript : List Parameter → List Action
  | [] => []
  | p :: ps => p.script ++ ps.flatMap fun q => take (.symbol ',') :: q.script

namespace Subroutine

/-- The actions around the closing brace of a subroutine. -/
def closingScript (s : Subroutine) : List Action :=
  if s.body.endsInReturn then
    [.closeNode .statements, take (.symbol '}'), .closeNode .subroutineBody]
  else if s.kind = .constructor then
    [.closeNode .statements, take (.symbol '}'), .closeNode .subroutineBody,
      .implicitReturn s.name]
  else
    [.closeNode .statements, .missingReturn s.kind s.name nowhere, take (.symbol '}'),
      .closeNode .subroutineBody]

/-- The actions of a subroutine. -/
def script (s : Subroutine) : List Action :=
  [.openNode .subroutineDec, take (.keyword (kindKeyword s.kind)), take (resultToken s.result),
    take (.identifier s.name), .enterSubroutine s.kind, take (.symbol '('),
    .openNode .parameterList] ++ parametersScript s.params ++
    [.closeNode .parameterList, take (.symbol ')'), .openNode .subroutineBody,
      take (.symbol '{')] ++ s.locals.flatMap localsScript ++
    [.enterBody s.kind s.name, .openNode .statements] ++ s.body.script ++ s.closingScript ++
    [.closeNode .subroutineDec]

end Subroutine

/-- The actions of a class. -/
def ClassDec.script (c : ClassDec) : List Action :=
  [.openNode .wholeClass, take (.keyword .classKw), take (.identifier c.name), .enterClass c.name,
    take (.symbol '{')] ++ c.vars.flatMap ClassVarDec.script ++
    c.subroutines.flatMap Subroutine.script ++
    [take (.symbol '}'), .closeNode .wholeClass]

end Jack.Grammar
