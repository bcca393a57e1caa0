import Jack.Subroutine
import Jack.Symbol.Table
import Jack.Text.Lines
import Jack.Token.Basic

/-!
# Compile errors

A compile error is a cause with, nearly always, the span it is about. The report shows the line of
the source where the span starts and marks the span with carets.
-/

namespace Jack

/-- What a token could have been. -/
inductive Expected where
  | symbol (c : Char)
  | keyword (k : Keyword)
  | identifier
  | type
  | term
  /-- A statement, or the end of a block. -/
  | statement
  /-- A subroutine, or the end of the class. -/
  | subroutine
  /-- Nothing more. -/
  | endOfInput
  deriving DecidableEq, Repr

/-- What was expected, as messages say it. -/
def Expected.text : Expected → String
  | .symbol c => "`" ++ c.toString ++ "`"
  | .keyword k => "`" ++ k.text ++ "`"
  | .identifier => "identifier"
  | .type => "type"
  | .term => "term"
  | .statement => "statement or `\x7d`"
  | .subroutine => "subroutine declaration or `\x7d`"
  | .endOfInput => "end of input"

/-- The four classes of compile errors. -/
inductive ErrorKind where
  /-- A stretch of source is no token. -/
  | lexical
  /-- A token or a value does not fit. -/
  | unexpectedToken
  | unresolvedSymbol
  /-- A name is declared twice in one scope. -/
  | duplicateSymbol
  deriving DecidableEq, Repr

/-- The name of a class of errors. -/
def ErrorKind.name : ErrorKind → String
  | .lexical => "lexical error"
  | .unexpectedToken => "unexpected token"
  | .unresolvedSymbol => "unresolved symbol"
  | .duplicateSymbol => "duplicate symbol"

/-- Why a class does not compile. -/
inductive Cause where
  /-- The current token is a lexical error. -/
  | lexical (e : LexError)
  /-- The current token does not fit; it is absent where the tokens have run out. -/
  | unexpected (expected : Expected) (found : Option Token)
  /-- A function or a method whose last statement is no `return`. -/
  | missingReturn (kind : SubroutineKind) (subroutine : String)
  /-- An integer constant above the limit. -/
  | integerTooLarge (value : Nat) (limit : UInt16)
  /-- A string constant whose length has more than 16 bits. -/
  | stringTooLong
  /-- A character in a string constant whose code has more than 16 bits. -/
  | wideCharacter (c : Char)
  /-- A call whose number of arguments has more than 16 bits. -/
  | tooManyArguments
  | declaration (e : DeclareError)
  | undeclared (name className : String)
  deriving DecidableEq, Repr

namespace Cause

/-- The class of a cause. -/
def kind : Cause → ErrorKind
  | .lexical _ => .lexical
  | .declaration (.duplicate _ _) => .duplicateSymbol
  | .undeclared _ _ => .unresolvedSymbol
  | .declaration (.tooMany _ _) | .unexpected _ _ | .missingReturn _ _ | .integerTooLarge _ _
  | .stringTooLong | .wideCharacter _ | .tooManyArguments => .unexpectedToken

/-- The wording of a cause. -/
def message : Cause → String
  | .lexical e => e.message
  | .unexpected expected found =>
    "expected " ++ expected.text ++ ", found " ++
      (match found with
        | some t => t.describe
        | none => "end of input")
  | .missingReturn kind subroutine =>
    "expected `return` before the end of " ++ kind.name ++ " `" ++ subroutine ++ "`"
  | .integerTooLarge value limit =>
    "integer constant " ++ value.repr ++ " is larger than " ++ limit.toNat.repr
  | .stringTooLong => "string constant is too long"
  | .wideCharacter c => "character " ++ Text.quotedChar c ++ " has no 16-bit code"
  | .tooManyArguments => "more than 65535 arguments in one call"
  | .declaration e => e.message
  | .undeclared name className => "`" ++ name ++ "` is not declared in `" ++ className ++ "`"

end Cause

/-! ## How errors are shown -/

/-- A class of errors and the wording of one of them. -/
def ErrorKind.headline (kind : ErrorKind) (message : String) : String :=
  kind.name ++ ": " ++ message

/-- A headline on one line, behind the position it is about. -/
def located (span : Option Span) (headline : String) : String :=
  match span with
  | some span => span.start.text ++ ": " ++ headline
  | none => headline

/-- A character repeated. -/
def repeated (n : Nat) (c : Char) : String := String.ofList (List.replicate n c)

/-- How many carets mark a span: one for each byte if it ends on the line it starts on, at least
one. -/
def markWidth (span : Span) : Nat :=
  if span.stop.line = span.start.line then max span.length 1 else 1

/-- A headline with the line of the source where a span starts, and the span marked with carets. -/
def excerpt (span : Option Span) (headline source : String) : String :=
  let head := "error: " ++ headline
  match span with
  | none => head
  | some span =>
    let number := span.start.line.repr
    let gutter := repeated number.length ' '
    let line := String.ofList (Text.lineAt span.start.line source.toList)
    head ++
      "\n" ++ gutter ++ "--> line " ++ number ++ ", col " ++ span.start.column.repr ++
      "\n" ++ gutter ++ " |" ++
      "\n" ++ number ++ " | " ++ line ++
      "\n" ++ gutter ++ " | " ++ repeated (span.start.column - 1) ' ' ++
        repeated (markWidth span) '^'

/-! ## Compile errors -/

/-- A compile error. -/
structure CompileError where
  cause : Cause
  span : Option Span
  deriving DecidableEq, Repr

namespace CompileError

/-- The class of the error. -/
def kind (e : CompileError) : ErrorKind := e.cause.kind

/-- The wording of the error. -/
def message (e : CompileError) : String := e.cause.message

/-- The error with a span, unless it has one already. -/
def orSpan (e : CompileError) (span : Span) : CompileError :=
  { e with span := e.span <|> some span }

/-- The class and the wording. -/
def headline (e : CompileError) : String := e.kind.headline e.message

/-- The error on one line, with its position in front. -/
def text (e : CompileError) : String := located e.span e.headline

/-- The error with the line of the source that it is about. -/
def report (e : CompileError) (source : String) : String := excerpt e.span e.headline source

end CompileError

end Jack
