/-!
# Reserved words

The 21 words that are never names.
-/

namespace Jack

/-- A reserved word. -/
inductive Keyword where
  | classKw | constructorKw | functionKw | methodKw | fieldKw | staticKw | varKw
  | intKw | charKw | booleanKw | voidKw
  | trueKw | falseKw | nullKw | thisKw
  | letKw | doKw | ifKw | elseKw | whileKw | returnKw
  deriving DecidableEq, Repr

namespace Keyword

/-- Every reserved word. -/
def all : List Keyword :=
  [.classKw, .constructorKw, .functionKw, .methodKw, .fieldKw, .staticKw, .varKw,
    .intKw, .charKw, .booleanKw, .voidKw, .trueKw, .falseKw, .nullKw, .thisKw,
    .letKw, .doKw, .ifKw, .elseKw, .whileKw, .returnKw]

/-- The spelling of a reserved word. -/
def text : Keyword → String
  | .classKw => "class"
  | .constructorKw => "constructor"
  | .functionKw => "function"
  | .methodKw => "method"
  | .fieldKw => "field"
  | .staticKw => "static"
  | .varKw => "var"
  | .intKw => "int"
  | .charKw => "char"
  | .booleanKw => "boolean"
  | .voidKw => "void"
  | .trueKw => "true"
  | .falseKw => "false"
  | .nullKw => "null"
  | .thisKw => "this"
  | .letKw => "let"
  | .doKw => "do"
  | .ifKw => "if"
  | .elseKw => "else"
  | .whileKw => "while"
  | .returnKw => "return"

/-- The reserved word with a spelling, if there is one. -/
def ofText? (word : String) : Option Keyword :=
  all.find? (·.text == word)

/-- The text of a keyword is read back as the keyword. -/
theorem ofText?_text (k : Keyword) : ofText? k.text = some k := by
  cases k <;> decide +kernel

end Keyword

end Jack
