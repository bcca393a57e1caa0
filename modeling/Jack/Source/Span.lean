/-!
# Positions and spans

Positions count bytes, lines and columns of a source; a span is the stretch from one position up to
another. Lines and columns count from one, and a column counts bytes.
-/

namespace Jack

/-- A position in a source. -/
structure Pos where
  /-- Bytes before the position. -/
  offset : Nat
  /-- Number of the line, from one. -/
  line : Nat
  /-- Number of the byte in its line, from one. -/
  column : Nat
  deriving DecidableEq, Repr, Inhabited

namespace Pos

/-- Where every source starts. -/
def origin : Pos := ⟨0, 1, 1⟩

/-- The position after one more byte; only a line feed starts a new line. -/
def advance (p : Pos) (b : UInt8) : Pos :=
  if b = 0x0A then ⟨p.offset + 1, p.line + 1, 1⟩ else ⟨p.offset + 1, p.line, p.column + 1⟩

/-- Line and column. -/
def text (p : Pos) : String := p.line.repr ++ ":" ++ p.column.repr

/-- Every byte counts for one in the offset. -/
@[simp] theorem advance_offset (p : Pos) (b : UInt8) : (p.advance b).offset = p.offset + 1 := by
  unfold advance; split <;> rfl

end Pos

/-- The stretch of a source from `start` up to, but not including, `stop`. -/
structure Span where
  /-- Where the stretch starts. -/
  start : Pos
  /-- Where it has ended. -/
  stop : Pos
  deriving DecidableEq, Repr, Inhabited

namespace Span

/-- The empty span at a position. -/
def point (p : Pos) : Span := ⟨p, p⟩

/-- The number of bytes between the two ends. -/
def length (s : Span) : Nat := s.stop.offset - s.start.offset

/-- Does the span hold no byte? -/
def isEmpty (s : Span) : Bool := s.length == 0

/-- Both ends. -/
def text (s : Span) : String := s.start.text ++ "-" ++ s.stop.text

end Span

end Jack
