import Jack.Parse.Action

/-!
# Derivations of classes

The grammar of classes as a family of trees, one type for each nonterminal and one constructor for
each production. The yield of a tree is the list of token kinds that it derives. Places and lexemes
do not take part in the grammar, so a tree has neither.

A repetition with separators is a list together with two yields: `yield` for the part that may be
empty, and `more` for the elements that come after a first one, each behind its comma.
-/

namespace Jack.Grammar

/-- An operator in front of a term. -/
inductive UnaryOp where
  | negate
  | complement
  | shiftLeft
  | shiftRight
  deriving DecidableEq, Repr

/-- The symbol of a unary operator. -/
def UnaryOp.symbol : UnaryOp → Char
  | .negate => '-'
  | .complement => '~'
  | .shiftLeft => '^'
  | .shiftRight => '#'

/-- The operation of a unary operator. -/
def UnaryOp.op : UnaryOp → Vm.Op
  | .negate => .neg
  | .complement => .not
  | .shiftLeft => .shiftLeft
  | .shiftRight => .shiftRight

/-- The binary operators, none of which binds more tightly than another. -/
inductive Operator where
  | plus
  | minus
  | and
  | or
  | less
  | greater
  | equal
  | times
  | divide
  deriving DecidableEq, Repr

/-- The symbol of an operator. -/
def Operator.symbol : Operator → Char
  | .plus => '+'
  | .minus => '-'
  | .and => '&'
  | .or => '|'
  | .less => '<'
  | .greater => '>'
  | .equal => '='
  | .times => '*'
  | .divide => '/'

/-- A keyword that is a term. -/
inductive TermWord where
  | trueWord | falseWord | nullWord | thisWord
  deriving DecidableEq, Repr

/-- The keyword of a word that is a term. -/
def TermWord.keyword : TermWord → Keyword
  | .trueWord => .trueKw
  | .falseWord => .falseKw
  | .nullWord => .nullKw
  | .thisWord => .thisKw

/-- `'int' | 'char' | 'boolean' | className` -/
inductive TypeName where
  | int | char | boolean
  | named (name : String)
  deriving DecidableEq, Repr

namespace TypeName

/-- The token of a type. -/
def token : TypeName → TokenKind
  | .int => .keyword .intKw
  | .char => .keyword .charKw
  | .boolean => .keyword .booleanKw
  | .named name => .identifier name

/-- The name of a type. -/
def text : TypeName → String
  | .int => "int"
  | .char => "char"
  | .boolean => "boolean"
  | .named name => name

end TypeName

/-- The first name of a call. -/
def calleeFirst : Callee → String
  | .own name => name
  | .member owner _ => owner

/-- The tokens between the first name of a call and its parenthesis. -/
def calleeRest : Callee → List TokenKind
  | .own _ => []
  | .member _ name => [.symbol '.', .identifier name]

/-- `name | (className | varName) '.' name` -/
def calleeYield (callee : Callee) : List TokenKind :=
  .identifier (calleeFirst callee) :: calleeRest callee

mutual

/-- A derivation of `term`. -/
inductive Term where
  /-- `integerConstant` -/
  | integer (value : Nat)
  /-- `stringConstant` -/
  | string (body : String)
  /-- `'true' | 'false' | 'null' | 'this'` -/
  | word (w : TermWord)
  /-- `varName` -/
  | var (name : String)
  /-- `varName '[' expression ']'` -/
  | element (name : String) (index : Expr)
  /-- `callee '(' expressionList ')'` -/
  | call (callee : Callee) (args : Args)
  /-- `'(' expression ')'` -/
  | group (inner : Expr)
  /-- `unaryOp term` -/
  | unary (op : UnaryOp) (operand : Term)
  deriving DecidableEq, Repr

/-- `term (op term)*` -/
inductive Expr where
  | mk (first : Term) (rest : Tail)
  deriving DecidableEq, Repr

/-- `(op term)*` -/
inductive Tail where
  | nil
  | cons (op : Operator) (operand : Term) (rest : Tail)
  deriving DecidableEq, Repr

/-- `(expression (',' expression)*)?` -/
inductive Args where
  | nil
  | cons (first : Expr) (rest : Args)
  deriving DecidableEq, Repr

end

mutual

/-- A derivation of `statement`. -/
inductive Statement where
  /-- `'let' varName '=' expression ';'` -/
  | assign (name : String) (value : Expr)
  /-- `'let' varName '[' expression ']' '=' expression ';'` -/
  | assignElement (name : String) (index value : Expr)
  /-- `'if' '(' expression ')' '{' statements '}'` -/
  | ifThen (condition : Expr) (yes : Statements)
  /-- `'if' '(' expression ')' '{' statements '}' 'else' '{' statements '}'` -/
  | ifElse (condition : Expr) (yes no : Statements)
  /-- `'while' '(' expression ')' '{' statements '}'` -/
  | loop (condition : Expr) (body : Statements)
  /-- `'do' callee '(' expressionList ')' ';'` -/
  | invoke (callee : Callee) (args : Args)
  /-- `'return' expression? ';'` -/
  | giveBack (value : Option Expr)
  deriving DecidableEq, Repr

/-- `statement*` -/
inductive Statements where
  | nil
  | cons (first : Statement) (rest : Statements)
  deriving DecidableEq, Repr

end

/-- `type varName (',' varName)*` -/
structure Names where
  type : TypeName
  first : String
  more : List String
  deriving DecidableEq, Repr

/-- Where a variable of the class is stored: once, or in each object. -/
inductive Storage where
  | static | field
  deriving DecidableEq, Repr

namespace Storage

/-- The keyword of a storage. -/
def keyword : Storage → Keyword
  | .static => .staticKw
  | .field => .fieldKw

/-- The kind of the symbols of a storage. -/
def kind : Storage → SymbolKind
  | .static => .static
  | .field => .field

end Storage

/-- `('static' | 'field') type varName (',' varName)* ';'` -/
structure ClassVarDec where
  storage : Storage
  names : Names
  deriving DecidableEq, Repr

/-- `type varName` -/
structure Parameter where
  type : TypeName
  name : String
  deriving DecidableEq, Repr

/-- `kind ('void' | type) name '(' parameterList ')' '{' varDec* statements '}'` -/
structure Subroutine where
  kind : SubroutineKind
  result : Option TypeName
  name : String
  params : List Parameter
  locals : List Names
  body : Statements
  deriving DecidableEq, Repr

/-- `'class' name '{' classVarDec* subroutineDec* '}'` -/
structure ClassDec where
  name : String
  vars : List ClassVarDec
  subroutines : List Subroutine
  deriving DecidableEq, Repr

/-! ## Yields -/

mutual

/-- The tokens of a term. -/
def Term.yield : Term → List TokenKind
  | .integer value => [.integer value]
  | .string body => [.string body]
  | .word w => [.keyword w.keyword]
  | .var name => [.identifier name]
  | .element name index =>
    .identifier name :: .symbol '[' :: (index.yield ++ [.symbol ']'])
  | .call callee args => calleeYield callee ++ .symbol '(' :: (args.yield ++ [.symbol ')'])
  | .group inner => .symbol '(' :: (inner.yield ++ [.symbol ')'])
  | .unary op operand => .symbol op.symbol :: operand.yield

/-- The tokens of an expression. -/
def Expr.yield : Expr → List TokenKind
  | .mk first rest => first.yield ++ rest.yield

/-- The tokens of the operators and operands behind the first one. -/
def Tail.yield : Tail → List TokenKind
  | .nil => []
  | .cons op operand rest => .symbol op.symbol :: (operand.yield ++ rest.yield)

/-- The tokens of arguments, without the parentheses. -/
def Args.yield : Args → List TokenKind
  | .nil => []
  | .cons first rest => first.yield ++ rest.more

/-- The tokens of arguments after a first one. -/
def Args.more : Args → List TokenKind
  | .nil => []
  | .cons first rest => .symbol ',' :: (first.yield ++ rest.more)

end

/-- The number of arguments. -/
def Args.length : Args → Nat
  | .nil => 0
  | .cons _ rest => rest.length + 1

/-- The tokens of the value of a `return`. -/
def valueYield : Option Expr → List TokenKind
  | none => []
  | some value => value.yield

mutual

/-- The tokens of a statement. -/
def Statement.yield : Statement → List TokenKind
  | .assign name value =>
    .keyword .letKw :: .identifier name :: .symbol '=' :: (value.yield ++ [.symbol ';'])
  | .assignElement name index value =>
    .keyword .letKw :: .identifier name :: .symbol '[' ::
      (index.yield ++ .symbol ']' :: .symbol '=' :: (value.yield ++ [.symbol ';']))
  | .ifThen condition yes =>
    .keyword .ifKw :: .symbol '(' ::
      (condition.yield ++ .symbol ')' :: .symbol '{' :: (yes.yield ++ [.symbol '}']))
  | .ifElse condition yes no =>
    .keyword .ifKw :: .symbol '(' ::
      (condition.yield ++ .symbol ')' :: .symbol '{' ::
        (yes.yield ++ .symbol '}' :: .keyword .elseKw :: .symbol '{' ::
          (no.yield ++ [.symbol '}'])))
  | .loop condition body =>
    .keyword .whileKw :: .symbol '(' ::
      (condition.yield ++ .symbol ')' :: .symbol '{' :: (body.yield ++ [.symbol '}']))
  | .invoke callee args =>
    .keyword .doKw :: (calleeYield callee ++ .symbol '(' ::
      (args.yield ++ [.symbol ')', .symbol ';']))
  | .giveBack value => .keyword .returnKw :: (valueYield value ++ [.symbol ';'])

/-- The tokens of statements. -/
def Statements.yield : Statements → List TokenKind
  | .nil => []
  | .cons first rest => first.yield ++ rest.yield

end

/-- The tokens of names after a first one. -/
def moreNames : List String → List TokenKind
  | [] => []
  | name :: names => .symbol ',' :: .identifier name :: moreNames names

/-- The tokens of a list of names with their type. -/
def Names.yield (n : Names) : List TokenKind :=
  n.type.token :: .identifier n.first :: moreNames n.more

/-- The tokens of a declaration of the class. -/
def ClassVarDec.yield (d : ClassVarDec) : List TokenKind :=
  .keyword d.storage.keyword :: (d.names.yield ++ [.symbol ';'])

/-- The tokens of a `var`. -/
def localsYield (n : Names) : List TokenKind :=
  .keyword .varKw :: (n.yield ++ [.symbol ';'])

/-- The tokens of a parameter. -/
def Parameter.yield (p : Parameter) : List TokenKind := [p.type.token, .identifier p.name]

/-- The tokens of parameters after a first one. -/
def moreParameters : List Parameter → List TokenKind
  | [] => []
  | p :: ps => .symbol ',' :: (p.yield ++ moreParameters ps)

/-- The tokens of parameters, without the parentheses. -/
def parametersYield : List Parameter → List TokenKind
  | [] => []
  | p :: ps => p.yield ++ moreParameters ps

/-- The token of the type of a result. -/
def resultToken : Option TypeName → TokenKind
  | none => .keyword .voidKw
  | some type => type.token

/-- The keyword of a kind of subroutines. -/
def kindKeyword : SubroutineKind → Keyword
  | .constructor => .constructorKw
  | .function => .functionKw
  | .method => .methodKw

/-- The tokens of a subroutine. -/
def Subroutine.yield (s : Subroutine) : List TokenKind :=
  .keyword (kindKeyword s.kind) :: resultToken s.result :: .identifier s.name :: .symbol '(' ::
    (parametersYield s.params ++ .symbol ')' :: .symbol '{' ::
      (s.locals.flatMap localsYield ++ (s.body.yield ++ [.symbol '}'])))

/-- The tokens of a class. -/
def ClassDec.yield (c : ClassDec) : List TokenKind :=
  .keyword .classKw :: .identifier c.name :: .symbol '{' ::
    (c.vars.flatMap ClassVarDec.yield ++ (c.subroutines.flatMap Subroutine.yield ++ [.symbol '}']))

end Jack.Grammar
