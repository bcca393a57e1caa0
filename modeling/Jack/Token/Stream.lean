import Jack.Token.Lexer

/-!
# Token streams

All tokens of a source, and a reader that hands them out one at a time. The list of tokens ends with
the one token for the end of the input.
-/

namespace Jack

namespace Window

/-- Adds all tokens from here on to `out`, the end of the input last. -/
def tokensOnto (w : Window) (out : Array Token) : Array Token :=
  if _h : w.scan.1.kind = .eof then out.push w.scan.1
  else tokensOnto w.scan.2 (out.push w.scan.1)
termination_by w.rest.length
decreasing_by exact length_rest_scan_lt _h

end Window

/-- All tokens of a byte source. -/
def ByteSource.tokens (source : ByteSource) : List Token :=
  ((Window.ofSource source).tokensOnto #[]).toList

/-- The tokens of a byte list. -/
def tokensOfBytes (bs : List UInt8) : List Token := ByteSource.tokens ⟨bs, .finished⟩

/-- The tokens of a text. -/
def tokensOf (text : String) : List Token := tokensOfBytes (Text.Utf8.bytes text)

/-- A reader of tokens. -/
structure Lexer where
  window : Window
  /-- Has `next?` handed out the end of the input? -/
  ended : Bool

namespace Lexer

/-- The reader at the start of a source. -/
def ofSource (source : ByteSource) : Lexer := ⟨.ofSource source, false⟩

/-- The next token; at the end of the input always that end. -/
def nextToken (l : Lexer) : Token × Lexer :=
  (l.window.scan.1, { l with window := l.window.scan.2 })

/-- The next token, the end of the input only once. -/
def next? (l : Lexer) : Option Token × Lexer :=
  if l.ended then (none, l)
  else (some l.window.scan.1, ⟨l.window.scan.2, l.window.scan.1.isEof⟩)

end Lexer

end Jack
