import Jack.Token.Basic

/-!
# Markup of tokens

Each token but the end of the input and errors has an element, a tag around its escaped value. The
listing of a token list has one element on each line.
-/

namespace Jack

/-- A character as it stands in markup. -/
def markupChar (c : Char) : String :=
  if c = '<' then "&lt;"
  else if c = '>' then "&gt;"
  else if c = '&' then "&amp;"
  else if c = '"' then "&quot;"
  else c.toString

/-- A text as it stands in markup. -/
def markupText (s : String) : String :=
  s.toList.foldl (fun out c => out ++ markupChar c) ""

/-- A tag with a value. -/
structure Element where
  tag : String
  /-- Its value, not escaped yet. -/
  value : String
  deriving DecidableEq, Repr

/-- The element on one line, without the line's end. -/
def Element.text (e : Element) : String :=
  "<" ++ e.tag ++ "> " ++ markupText e.value ++ " </" ++ e.tag ++ ">"

/-- The element of a token. -/
def TokenKind.element? : TokenKind → Option Element
  | .keyword k => some ⟨"keyword", k.text⟩
  | .symbol c => some ⟨"symbol", c.toString⟩
  | .integer n => some ⟨"integerConstant", n.repr⟩
  | .string body => some ⟨"stringConstant", body⟩
  | .identifier name => some ⟨"identifier", name⟩
  | .eof | .error _ => none

/-- The error that stops a listing, and the token it stands at. -/
structure ListingError where
  cause : LexError
  token : Token
  deriving DecidableEq, Repr

/-- The error with its position. -/
def ListingError.text (e : ListingError) : String :=
  e.cause.message ++ " at " ++ e.token.span.start.text

/-- Adds the elements of tokens to `out`, up to the end of the input or the first error. -/
def elementsOnto (out : String) : List Token → Except ListingError String
  | [] => .ok out
  | t :: ts =>
    match t.kind with
    | .error e => .error ⟨e, t⟩
    | kind =>
      match kind.element? with
      | none => .ok out
      | some e => elementsOnto (out ++ e.text ++ "\n") ts

/-- The listing of a token list. -/
def tokenListing (tokens : List Token) : Except ListingError String :=
  (elementsOnto "<tokens>\n" tokens).map (· ++ "</tokens>\n")

end Jack
