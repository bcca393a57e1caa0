import Jack.Source.Span
import Jack.Text.Quoted
import Jack.Token.Keyword

/-!
# Tokens

A token is a kind with its value, the span it was read from and the text it was read as.
-/

namespace Jack

/-- The 21 characters that are tokens by themselves. -/
def symbols : List Char :=
  ['{', '}', '(', ')', '[', ']', '.', ',', ';', '+', '-', '*', '/', '&', '|',
    '<', '>', '=', '~', '^', '#']

/-- Is a character a token by itself? -/
def isSymbol (c : Char) : Bool := symbols.contains c

/-- Why a stretch of source is no token. -/
inductive LexError where
  /-- A block comment without an end. -/
  | unterminatedComment
  /-- A string constant that its line does not close. -/
  | unterminatedString
  /-- An integer constant of more than 64 bits. -/
  | integerOverflow
  /-- A character that starts no token. -/
  | unexpectedCharacter (c : Char)
  /-- A fault found by another source of tokens, in its own words. -/
  | reported (message : String)
  deriving DecidableEq, Repr

/-- The wording of a lexical error. -/
def LexError.message : LexError → String
  | .unterminatedComment => "unterminated block comment"
  | .unterminatedString => "unterminated string constant"
  | .integerOverflow => "integer constant overflow"
  | .unexpectedCharacter c => "unexpected character: " ++ Text.quotedChar c
  | .reported message => message

/-- The kind of a token, with its value. -/
inductive TokenKind where
  | keyword (k : Keyword)
  | symbol (c : Char)
  /-- An integer constant; its range is not checked here. -/
  | integer (value : Nat)
  /-- A string constant, without its quotes. -/
  | string (body : String)
  /-- A name that is not reserved. -/
  | identifier (name : String)
  | eof
  /-- A stretch that is no token. -/
  | error (e : LexError)
  deriving DecidableEq, Repr

/-- The name of a kind, as messages give it. -/
def TokenKind.name : TokenKind → String
  | .keyword _ => "keyword"
  | .symbol _ => "symbol"
  | .integer _ => "integer constant"
  | .string _ => "string constant"
  | .identifier _ => "identifier"
  | .eof => "end of input"
  | .error _ => "error"

/-- A token. -/
structure Token where
  kind : TokenKind
  span : Span
  /-- The text it was read as. -/
  lexeme : String
  deriving DecidableEq, Repr

namespace Token

/-- Is this the end of the input? -/
def isEof (t : Token) : Bool :=
  match t.kind with
  | .eof => true
  | _ => false

/-- A token as messages name it. -/
def describe (t : Token) : String :=
  match t.kind with
  | .eof => "end of input"
  | .string _ => "string constant " ++ t.lexeme
  | kind => kind.name ++ " `" ++ t.lexeme ++ "`"

end Token

end Jack
