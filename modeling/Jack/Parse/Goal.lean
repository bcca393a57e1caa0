import Jack.Error
import Jack.Parse.Action

/-!
# Goals

The grammar of classes as goals that are met one after another. A goal looks at the current token
only: it is replaced by other goals, or takes the token first, or rejects it. Every rule below says
which words the goal stands for; the actions of a rule come in the order in which they are carried
out.
-/

namespace Jack

/-- Where a list of statements stands. -/
inductive Block where
  /-- In an arm of a branch or in a loop. -/
  | inner
  /-- In the body of a subroutine. -/
  | body (kind : SubroutineKind) (name : String)
  deriving DecidableEq, Repr

/-- What is left to be met. -/
inductive Goal where
  /-- Nothing but actions. -/
  | perform (actions : List Action)
  | symbol (c : Char)
  | keyword (k : Keyword)
  /-- The name of the class. -/
  | className
  /-- Declarations of statics and fields, then the subroutines. -/
  | classVarDecs
  /-- Subroutines, then the end of the class. -/
  | subroutineDecs
  | endOfInput
  /-- A type and the names declared with it. -/
  | variables (kind : SymbolKind)
  /-- One name declared with a type. -/
  | variable (type : String) (kind : SymbolKind)
  /-- More names declared with a type, each behind a comma. -/
  | moreVariables (type : String) (kind : SymbolKind)
  | resultType
  /-- The name of a subroutine, then all the rest of it. -/
  | subroutineName (kind : SubroutineKind)
  | parameters
  | parameter
  /-- More parameters, each behind a comma. -/
  | moreParameters
  | varDecs
  /-- Statements up to the closing brace. -/
  | statements (block : Block) (returned : Bool)
  /-- The variable that an assignment writes, then all the rest of it. -/
  | letTarget
  /-- An assignment after its variable. -/
  | letRest (name : String) (span : Span)
  /-- The second arm of a branch, if there is one. -/
  | elsePart
  | returnValue
  /-- Terms with operators between them. -/
  | expression
  /-- Operators with their right operands. -/
  | operators
  | term
  /-- A term after the name it starts with. -/
  | afterName (name : String) (span : Span)
  /-- The first name of a call, then all the rest of it. -/
  | calledName
  /-- A call after its first name. -/
  | callRest (name : String) (span : Span)
  /-- The name behind the dot of a call, then all the rest of it. -/
  | member (owner : String) (span : Span)
  /-- The arguments of a call and its closing parenthesis. -/
  | arguments (callee : Callee)
  | argument (callee : Callee) (count : Nat)
  /-- What follows an argument. -/
  | moreArguments (callee : Callee) (count : Nat)
  deriving DecidableEq, Repr

/-- How a goal meets the current token. -/
inductive Move where
  /-- Carries out actions and goes on with other goals; the token stays. -/
  | skip (actions : List Action) (goals : List Goal)
  /-- Carries out actions, takes the token and goes on with other goals. -/
  | take (actions : List Action) (goals : List Goal)
  /-- Carries out actions and refuses the token. -/
  | reject (actions : List Action) (expected : Expected)
  deriving DecidableEq, Repr

/-- The type that a token names. -/
def TokenKind.typeName? : TokenKind → Option String
  | .keyword .intKw => some Keyword.intKw.text
  | .keyword .charKw => some Keyword.charKw.text
  | .keyword .booleanKw => some Keyword.booleanKw.text
  | .identifier name => some name
  | _ => none

namespace Move

/-- The symbol `c`. -/
def symbol (c : Char) (current : TokenKind) : Move :=
  if current = .symbol c then .take [] [] else .reject [] (.symbol c)

/-- The reserved word `k`. -/
def keyword (k : Keyword) (current : TokenKind) : Move :=
  if current = .keyword k then .take [] [] else .reject [] (.keyword k)

/-- Any name, which decides how to go on. -/
def identifier (goals : String → List Goal) (current : TokenKind) : Move :=
  match current with
  | .identifier name => .take [] (goals name)
  | _ => .reject [] .identifier

/-- Any type, which decides how to go on. -/
def type (goals : String → List Goal) (current : TokenKind) : Move :=
  match current.typeName? with
  | some name => .take [] (goals name)
  | none => .reject [] .type

/-- `(('static' | 'field') type name (',' name)* ';')*`, then the subroutines. -/
def classVarDecs (current : TokenKind) : Move :=
  let declarations (kind : SymbolKind) : Move :=
    .take [.openNode .classVarDec]
      [.variables kind, .symbol ';', .perform [.closeNode .classVarDec], .classVarDecs]
  match current with
  | .keyword .staticKw => declarations .static
  | .keyword .fieldKw => declarations .field
  | _ => .skip [] [.subroutineDecs]

/-- The subroutines of the class and its closing brace. -/
def subroutineDecs (current : TokenKind) : Move :=
  let closing : Move :=
    if current = .symbol '}' then .take [] [.perform [.closeNode .wholeClass], .endOfInput]
    else .reject [] .subroutine
  match current with
  | .keyword k =>
    match SubroutineKind.ofKeyword? k with
    | some kind =>
      .take [.openNode .subroutineDec]
        [.resultType, .subroutineName kind, .perform [.closeNode .subroutineDec],
          .subroutineDecs]
    | none => closing
  | _ => closing

/-- Nothing more. -/
def endOfInput (current : TokenKind) : Move :=
  if current = .eof then .skip [] [] else .reject [] .endOfInput

/-- `'void' | type` -/
def resultType (current : TokenKind) : Move :=
  if current = .keyword .voidKw then .take [] [] else type (fun _ => []) current

/-- The goals from a subroutine's opening parenthesis to its closing brace. -/
def subroutineRest (kind : SubroutineKind) (name : String) : List Goal :=
  [.perform [.enterSubroutine kind], .symbol '(', .perform [.openNode .parameterList],
    .parameters, .perform [.closeNode .parameterList], .symbol ')',
    .perform [.openNode .subroutineBody], .symbol '{', .varDecs,
    .perform [.enterBody kind name, .openNode .statements], .statements (.body kind name) false]

/-- `(parameter (',' parameter)*)?`, before a closing parenthesis. -/
def parameters (current : TokenKind) : Move :=
  if current = .symbol ')' then .skip [] [] else .skip [] [.parameter, .moreParameters]

/-- `(',' goal)*`: a comma takes the goals on. -/
def afterComma (goals : List Goal) (current : TokenKind) : Move :=
  if current = .symbol ',' then .take [] goals else .skip [] []

/-- `('var' type name (',' name)* ';')*` -/
def varDecs (current : TokenKind) : Move :=
  if current = .keyword .varKw then
    .take [.openNode .varDec]
      [.variables .localVar, .symbol ';', .perform [.closeNode .varDec], .varDecs]
  else .skip [] []

/-- `'{' statement* '}'` -/
def innerBlock : List Goal :=
  [.symbol '{', .perform [.openNode .statements], .statements .inner false]

/-- The closing brace of a block. At the end of a subroutine the last statement must have been a
return, but for constructors, which then return their object. -/
def closeBlock (block : Block) (returned : Bool) (here : Span) : Move :=
  match block with
  | .inner => .take [.closeNode .statements] []
  | .body kind name =>
    if returned then .take [.closeNode .statements] [.perform [.closeNode .subroutineBody]]
    else if kind = .constructor then
      .take [.closeNode .statements]
        [.perform [.closeNode .subroutineBody, .implicitReturn name]]
    else
      .take [.closeNode .statements, .missingReturn kind name here]
        [.perform [.closeNode .subroutineBody]]

/-- `statement* '}'`; `returned` tells whether the statement before was a return. -/
def statements (block : Block) (returned : Bool) (current : TokenKind) (here : Span) : Move :=
  match current with
  | .keyword .letKw =>
    .take [.openNode .letStatement]
      [.letTarget, .perform [.closeNode .letStatement], .statements block false]
  | .keyword .ifKw =>
    .take [.openLabels, .openNode .ifStatement]
      ([.symbol '(', .expression, .symbol ')', .perform [.branchTest]] ++ innerBlock ++
        [.perform [.branchElse], .elsePart,
          .perform [.branchEnd, .closeNode .ifStatement], .statements block false])
  | .keyword .whileKw =>
    .take [.openLabels, .openNode .whileStatement]
      ([.perform [.loopTop], .symbol '(', .expression, .symbol ')', .perform [.loopTest]] ++
        innerBlock ++
        [.perform [.loopEnd, .closeNode .whileStatement], .statements block false])
  | .keyword .doKw =>
    .take [.openNode .doStatement]
      [.calledName, .symbol ';',
        .perform [.emit (.pop .temp 0), .closeNode .doStatement], .statements block false]
  | .keyword .returnKw =>
    .take [.openNode .returnStatement]
      [.returnValue, .symbol ';',
        .perform [.emit .ret, .closeNode .returnStatement], .statements block true]
  | .symbol '}' => closeBlock block returned here
  | _ => .reject [] .statement

/-- `('[' expression ']')? '=' expression ';'` after the name. The address of an element stays on
the stack while the value is computed. -/
def letRest (name : String) (span : Span) (current : TokenKind) : Move :=
  if current = .symbol '[' then
    .take []
      [.expression, .symbol ']', .perform [.load name span, .emit (.arithmetic .add)],
        .symbol '=', .expression, .symbol ';',
        .perform [.emit (.pop .temp 0), .emit (.pop .pointer 1), .emit (.push .temp 0),
          .emit (.pop .thatCell 0)]]
  else
    .skip [] [.symbol '=', .expression, .symbol ';', .perform [.store name span]]

/-- `('else' '{' statement* '}')?` -/
def elsePart (current : TokenKind) : Move :=
  if current = .keyword .elseKw then .take [] innerBlock else .skip [] []

/-- `expression?`, before a semicolon; without a value zero is returned. -/
def returnValue (current : TokenKind) : Move :=
  if current = .symbol ';' then .skip [.emit (.push .constant 0)] []
  else .skip [] [.expression]

/-- `(op term)*`; an operator follows its right operand in the code. -/
def operators (current : TokenKind) : Move :=
  match current with
  | .symbol c =>
    match BinaryOp.ofSymbol? c with
    | some op => .take [] [.term, .perform [.operate op], .operators]
    | none => .skip [.closeNode .expression] []
  | _ => .skip [.closeNode .expression] []

/-- The reserved words that are terms, with their code. -/
def termKeyword (k : Keyword) (here : Span) : Option (List Action) :=
  match k with
  | .trueKw => some [.emit (.push .constant 0), .emit (.arithmetic .not)]
  | .falseKw | .nullKw => some [.emit (.push .constant 0)]
  | .thisKw => some [.thisObject here]
  | _ => none

/-- A term that starts with a symbol: one in parentheses, or one with a unary operator. -/
def termSymbol (c : Char) : Option (List Goal) :=
  if c = '(' then some [.expression, .symbol ')']
  else (unaryOp? c).map fun op => [.term, .perform [.emit (.arithmetic op)]]

/-- A constant, a variable, an element, a call, or a term made of smaller ones. -/
def term (current : TokenKind) (here : Span) : Move :=
  let close : Goal := .perform [.closeNode .term]
  match current with
  | .integer value => .take [.openNode .term] [.perform [.integer value here], close]
  | .string body => .take [.openNode .term] [.perform [.string body here], close]
  | .keyword k =>
    match termKeyword k here with
    | some code => .take (.openNode .term :: code) [close]
    | none => .reject [.openNode .term] .term
  | .symbol c =>
    match termSymbol c with
    | some goals => .take [.openNode .term] (goals ++ [close])
    | none => .reject [.openNode .term] .term
  | .identifier name => .take [.openNode .term] [.afterName name here, close]
  | _ => .reject [.openNode .term] .term

/-- What follows a name in a term: an index, the rest of a call, or nothing. -/
def afterName (name : String) (span : Span) (current : TokenKind) : Move :=
  if current = .symbol '[' then
    .take []
      [.perform [.require name span], .expression, .symbol ']',
        .perform [.load name span, .emit (.arithmetic .add), .emit (.pop .pointer 1),
          .emit (.push .thatCell 0)]]
  else if current = .symbol '(' ∨ current = .symbol '.' then .skip [] [.callRest name span]
  else .skip [.load name span] []

/-- The object a call is made on is passed before the arguments. -/
def argumentList (callee : Callee) (span : Span) : List Goal :=
  [.perform [.receiver callee span], .symbol '(', .perform [.openNode .expressionList],
    .arguments callee]

/-- `('.' name)? '(' arguments ')'` after the first name of a call. -/
def callRest (name : String) (span : Span) (current : TokenKind) : Move :=
  if current = .symbol '.' then .take [] [.member name span]
  else .skip [] (argumentList (.own name) span)

/-- `')'` after `count` arguments. -/
def closeArguments (callee : Callee) (count : Nat) (current : TokenKind) (here : Span) : Move :=
  if current = .symbol ')' then
    .take [.closeNode .expressionList] [.perform [.call callee count here]]
  else .reject [.closeNode .expressionList] (.symbol ')')

/-- `(expression (',' expression)*)? ')'` -/
def arguments (callee : Callee) (current : TokenKind) (here : Span) : Move :=
  if current = .symbol ')' then closeArguments callee 0 current here
  else .skip [] [.argument callee 0]

/-- `expression (',' expression)* ')'` after `count` arguments. -/
def argument (callee : Callee) (count : Nat) (here : Span) : Move :=
  .skip []
    [.expression, .perform [.countArgument (count + 1) here],
      .moreArguments callee (count + 1)]

/-- `(',' expression)* ')'` after `count` arguments. -/
def moreArguments (callee : Callee) (count : Nat) (current : TokenKind) (here : Span) : Move :=
  if current = .symbol ',' then .take [] [.argument callee count]
  else closeArguments callee count current here

end Move

namespace Goal

/-- The move of a goal at the current token, whose span is `here`. -/
def predict (goal : Goal) (current : TokenKind) (here : Span) : Move :=
  match goal with
  | .perform actions => .skip actions []
  | .symbol c => .symbol c current
  | .keyword k => .keyword k current
  | .className => .identifier (fun name => [.perform [.enterClass name]]) current
  | .classVarDecs => .classVarDecs current
  | .subroutineDecs => .subroutineDecs current
  | .endOfInput => .endOfInput current
  | .variables kind => .type (fun type => [.variable type kind, .moreVariables type kind]) current
  | .variable type kind =>
    .identifier (fun name => [.perform [.declare name type kind here]]) current
  | .moreVariables type kind =>
    .afterComma [.variable type kind, .moreVariables type kind] current
  | .resultType => .resultType current
  | .subroutineName kind => .identifier (Move.subroutineRest kind) current
  | .parameters => .parameters current
  | .parameter => .type (fun type => [.variable type .argument]) current
  | .moreParameters => .afterComma [.parameter, .moreParameters] current
  | .varDecs => .varDecs current
  | .statements block returned => .statements block returned current here
  | .letTarget =>
    .identifier (fun name => [.perform [.require name here], .letRest name here]) current
  | .letRest name span => .letRest name span current
  | .elsePart => .elsePart current
  | .returnValue => .returnValue current
  | .expression => .skip [.openNode .expression] [.term, .operators]
  | .operators => .operators current
  | .term => .term current here
  | .afterName name span => .afterName name span current
  | .calledName => .identifier (fun name => [.callRest name here]) current
  | .callRest name span => .callRest name span current
  | .member owner span =>
    .identifier (fun name => Move.argumentList (.member owner name) span) current
  | .arguments callee => .arguments callee current here
  | .argument callee count => .argument callee count here
  | .moreArguments callee count => .moreArguments callee count current here

/-- The goals of a whole class. -/
def wholeClass : List Goal :=
  [.perform [.openNode .wholeClass], .keyword .classKw, .className, .symbol '{', .classVarDecs]

/-- More than the number of moves that a goal can cause before a token is taken. -/
def weight : Goal → Nat
  | .classVarDecs => 2
  | .parameters => 3
  | .letRest _ _ => 7
  | .returnValue => 4
  | .expression => 3
  | .afterName _ _ => 12
  | .callRest _ _ => 11
  | .arguments _ => 7
  | .argument _ _ => 6
  | _ => 1

/-- The weight of a list of goals. -/
def weights : List Goal → Nat
  | [] => 0
  | goal :: goals => goal.weight + weights goals

/-- An empty list of goals weighs nothing. -/
@[simp] theorem weights_nil : weights [] = 0 := rfl

/-- The weight of goals is the sum of their weights. -/
@[simp] theorem weights_cons (g : Goal) (gs : List Goal) :
    weights (g :: gs) = g.weight + weights gs := rfl

/-- Goals one behind the other weigh what they weigh apart. -/
@[simp] theorem weights_append (gs hs : List Goal) :
    weights (gs ++ hs) = weights gs + weights hs := by
  induction gs with
  | nil => simp
  | cons g gs ih => simp [ih, Nat.add_assoc]

/-- A token pays for this much weight. -/
def tokenWeight : Nat := 32

end Goal

/-- A move from a goal of weight `w` loses weight, where a token taken counts as `tokenWeight`. -/
def Move.Loses (w : Nat) : Move → Prop
  | .skip _ goals => Goal.weights goals < w
  | .take _ goals => Goal.weights goals < w + Goal.tokenWeight
  | .reject _ _ => True

/-- A symbol in front of a term leaves goals that weigh at most four. -/
theorem Move.weights_termSymbol {c : Char} {goals : List Goal}
    (h : Move.termSymbol c = some goals) : Goal.weights goals ≤ 4 := by
  unfold Move.termSymbol at h
  split at h
  · cases h; decide
  · obtain ⟨op, _, rfl⟩ := Option.map_eq_some_iff.1 h
    simp [Goal.weight]

/-- Every move loses weight, so meeting goals comes to an end. -/
theorem Goal.loses_predict (g : Goal) (current : TokenKind) (here : Span) :
    (g.predict current here).Loses g.weight := by
  cases g
  case term =>
    simp only [Goal.predict, Move.term]
    repeat' split
    all_goals simp [Move.Loses, Goal.weight, Goal.tokenWeight]
    next goals h =>
      have := Move.weights_termSymbol h
      omega
  all_goals
    simp only [Goal.predict, Move.symbol, Move.keyword, Move.identifier, Move.type,
      Move.classVarDecs, Move.subroutineDecs, Move.endOfInput, Move.resultType,
      Move.subroutineRest, Move.parameters, Move.afterComma, Move.varDecs, Move.innerBlock,
      Move.closeBlock, Move.statements, Move.letRest, Move.elsePart, Move.returnValue,
      Move.operators, Move.afterName, Move.argumentList, Move.callRest, Move.closeArguments,
      Move.arguments, Move.argument, Move.moreArguments]
    repeat' split
    all_goals simp [Move.Loses, Goal.weight, Goal.tokenWeight]

/-- The end of the input is never taken. -/
theorem Goal.predict_eof_ne_take (g : Goal) (here : Span) (actions : List Action)
    (goals : List Goal) : g.predict .eof here ≠ .take actions goals := by
  cases g <;>
    simp [Goal.predict, Move.symbol, Move.keyword, Move.identifier, Move.type,
      TokenKind.typeName?, Move.classVarDecs, Move.subroutineDecs, Move.endOfInput,
      Move.resultType, Move.parameters, Move.afterComma, Move.varDecs, Move.statements,
      Move.letRest, Move.elsePart, Move.returnValue, Move.operators, Move.term, Move.afterName,
      Move.callRest, Move.closeArguments, Move.arguments, Move.argument, Move.moreArguments]

end Jack
