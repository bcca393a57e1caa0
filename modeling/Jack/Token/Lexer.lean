import Jack.Source.Window
import Jack.Text.Decimal
import Jack.Token.Basic

/-!
# Reading tokens

Trivia, that is white space and comments, separates tokens and is dropped. A word is taken as long
as possible and is a keyword exactly when it is reserved. What starts no token becomes an error
token, and reading goes on behind it. Every token but the end of the input takes at least one byte,
so a source of finitely many bytes has finitely many tokens.
-/

namespace Jack

/-- The six bytes of white space. -/
def isSpaceByte (b : UInt8) : Bool :=
  b == 0x20 || b == 0x09 || b == 0x0A || b == 0x0B || b == 0x0C || b == 0x0D

/-- Can a word start with this byte? -/
def isWordStart (b : UInt8) : Bool :=
  (0x61 ≤ b && b ≤ 0x7A) || (0x41 ≤ b && b ≤ 0x5A) || b == 0x5F

/-- Is this a decimal digit? -/
def isDigitByte (b : UInt8) : Bool := 0x30 ≤ b && b ≤ 0x39

/-- Can a word go on with this byte? -/
def isWordByte (b : UInt8) : Bool := isWordStart b || isDigitByte b

/-- Can a string constant hold this byte? -/
def isStringByte (b : UInt8) : Bool := !(b == 0x22 || b == 0x0A || b == 0x0D)

/-- The characters of bytes below 128. -/
def asciiChars (bs : List UInt8) : List Char := bs.map Char.ofUInt8

/-- The bound that integer constants stay below. -/
def integerBound : Nat := UInt64.size

namespace Window

/-- Moves past the end of a block comment. The flag tells whether there was one; if not, all is
read. -/
def closeComment (w : Window) : Bool × Window :=
  match _h : w.peek? with
  | none => (false, w)
  | some b =>
    if b == 0x2A && w.peekAt? 1 == some 0x2F then (true, w.skip 2)
    else closeComment w.advance
termination_by w.rest.length
decreasing_by exact length_rest_advance_lt _h

/-- Looking for the end of a comment leaves no more than there was. -/
theorem length_rest_closeComment_le (w : Window) :
    w.closeComment.2.rest.length ≤ w.rest.length := by
  fun_induction closeComment w with
  | case1 => exact Nat.le_refl _
  | case2 => simp
  | case3 w b h _ ih => exact Nat.le_trans ih (Nat.le_of_lt (length_rest_advance_lt h))

/-- Moves past white space and comments. A block comment without an end gives its error token. -/
def skipTrivia (w : Window) : Option Token × Window :=
  match _h : w.peek? with
  | none => (none, w)
  | some b =>
    if isSpaceByte b then skipTrivia w.advance
    else if b == 0x2F && w.peekAt? 1 == some 0x2F then
      skipTrivia ((w.skip 2).takeWhile (· != 0x0A)).2
    else if b == 0x2F && w.peekAt? 1 == some 0x2A then
      let after := (w.skip 2).closeComment
      if after.1 then skipTrivia after.2
      else (some ⟨.error .unterminatedComment, ⟨w.pos, after.2.pos⟩, "/*"⟩, after.2)
    else (none, w)
termination_by w.rest.length
decreasing_by
  · exact length_rest_advance_lt _h
  · exact Nat.lt_of_le_of_lt (length_rest_takeWhile_le _ _) (length_rest_skip_lt _h 1)
  · exact Nat.lt_of_le_of_lt (length_rest_closeComment_le _) (length_rest_skip_lt _h 1)

/-- Reads a word. -/
def scanWord (w : Window) : Token × Window :=
  let taken := w.takeWhile isWordByte
  let word := String.ofList (asciiChars taken.1)
  let kind := match Keyword.ofText? word with
    | some k => .keyword k
    | none => .identifier word
  (⟨kind, ⟨w.pos, taken.2.pos⟩, word⟩, taken.2)

/-- Reads a run of digits. -/
def scanInteger (w : Window) : Token × Window :=
  let taken := w.takeWhile isDigitByte
  let digits := asciiChars taken.1
  let kind := match Text.valueBelow? integerBound digits with
    | some n => .integer n
    | none => .error .integerOverflow
  (⟨kind, ⟨w.pos, taken.2.pos⟩, String.ofList digits⟩, taken.2)

/-- Reads a string constant; the window stands at its opening quote. -/
def scanString (w : Window) : Token × Window :=
  let taken := w.advance.takeWhile isStringByte
  let body := Text.Utf8.lossy taken.1
  if taken.2.peek? == some 0x22 then
    let after := taken.2.advance
    (⟨.string body, ⟨w.pos, after.pos⟩, "\"" ++ body ++ "\""⟩, after)
  else (⟨.error .unterminatedString, ⟨w.pos, taken.2.pos⟩, "\"" ++ body⟩, taken.2)

/-- Reads a symbol of one byte. -/
def scanSymbol (w : Window) (c : Char) : Token × Window :=
  (⟨.symbol c, ⟨w.pos, w.advance.pos⟩, c.toString⟩, w.advance)

/-- Reads the character `c`, which ends before `after` and starts no token. -/
def strayToken (w : Window) (c : Char) (after : Window) : Token × Window :=
  (⟨.error (.unexpectedCharacter c), ⟨w.pos, after.pos⟩, c.toString⟩, after)

/-- Reads the token that starts at the next byte. -/
def scanToken (w : Window) : Token × Window :=
  match w.peek? with
  | none => (⟨.eof, .point w.pos, ""⟩, w)
  | some b =>
    if isWordStart b then w.scanWord
    else if isSymbol (Char.ofUInt8 b) then w.scanSymbol (Char.ofUInt8 b)
    else if isDigitByte b then w.scanInteger
    else if b == 0x22 then w.scanString
    else match w.nextChar? with
      | some (c, after) => w.strayToken c after
      | none => (⟨.eof, .point w.pos, ""⟩, w)

/-- Reads the next token: trivia first, then a token, or the end of the input again and again. -/
def scan (w : Window) : Token × Window :=
  match w.skipTrivia with
  | (some t, after) => (t, after)
  | (none, after) => after.scanToken

/-- Skipping blanks and comments leaves no more than there was. -/
theorem length_rest_skipTrivia_le (w : Window) :
    w.skipTrivia.2.rest.length ≤ w.rest.length := by
  fun_induction skipTrivia w with
  | case1 => exact Nat.le_refl _
  | case2 w b h _ ih => exact Nat.le_trans ih (Nat.le_of_lt (length_rest_advance_lt h))
  | case3 w b h _ _ ih =>
    exact Nat.le_trans ih (Nat.le_trans (length_rest_takeWhile_le _ _)
      (Nat.le_of_lt (length_rest_skip_lt h 1)))
  | case4 w b h _ _ _ after _ ih =>
    exact Nat.le_trans ih (Nat.le_trans (length_rest_closeComment_le _)
      (Nat.le_of_lt (length_rest_skip_lt h 1)))
  | case5 w b h _ _ _ after _ =>
    exact Nat.le_trans (length_rest_closeComment_le _) (Nat.le_of_lt (length_rest_skip_lt h 1))
  | case6 => exact Nat.le_refl _

/-- An unclosed comment takes bytes. -/
theorem length_rest_skipTrivia_lt {w : Window} {t : Token} (h : w.skipTrivia.1 = some t) :
    w.skipTrivia.2.rest.length < w.rest.length := by
  fun_induction skipTrivia w with
  | case1 => simp at h
  | case2 w b hb _ ih => exact Nat.lt_trans (ih h) (length_rest_advance_lt hb)
  | case3 w b hb _ _ ih =>
    exact Nat.lt_of_lt_of_le (ih h) (Nat.le_trans (length_rest_takeWhile_le _ _)
      (Nat.le_of_lt (length_rest_skip_lt hb 1)))
  | case4 w b hb _ _ _ after _ ih =>
    exact Nat.lt_of_lt_of_le (ih h) (Nat.le_trans (length_rest_closeComment_le _)
      (Nat.le_of_lt (length_rest_skip_lt hb 1)))
  | case5 w b hb _ _ _ after _ =>
    exact Nat.lt_of_le_of_lt (length_rest_closeComment_le _) (length_rest_skip_lt hb 1)
  | case6 => simp at h

/-- Every token but the end of the input takes bytes. -/
theorem length_rest_scanToken_lt {w : Window} (h : w.scanToken.1.kind ≠ .eof) :
    w.scanToken.2.rest.length < w.rest.length := by
  unfold scanToken at h ⊢
  split
  · next hn => simp [hn] at h
  · next b hb =>
    rw [hb] at h
    simp only at h
    split
    · next hw => exact length_rest_takeWhile_lt hb (by simp [isWordByte, hw])
    split
    · exact length_rest_advance_lt hb
    split
    · next hd => exact length_rest_takeWhile_lt hb hd
    split
    · unfold scanString
      simp only
      split
      · refine Nat.lt_of_le_of_lt ?_ (length_rest_advance_lt hb)
        refine Nat.le_trans ?_ (length_rest_takeWhile_le isStringByte _)
        simp
      · exact Nat.lt_of_le_of_lt (length_rest_takeWhile_le _ _) (length_rest_advance_lt hb)
    split
    · next c after hc => exact length_rest_nextChar?_lt hc
    · next hw hs hd hq _ hc => simp [hw, hs, hd, hq, hc] at h

/-- Reading a token other than the end of the input leaves less to read. -/
theorem length_rest_scan_lt {w : Window} (h : w.scan.1.kind ≠ .eof) :
    w.scan.2.rest.length < w.rest.length := by
  unfold scan at h ⊢
  split
  · next t after hs =>
    have hlt : w.skipTrivia.2.rest.length < w.rest.length :=
      length_rest_skipTrivia_lt (congrArg Prod.fst hs)
    rwa [hs] at hlt
  · next after hs =>
    rw [hs] at h
    have hle := length_rest_skipTrivia_le w
    rw [hs] at hle
    exact Nat.lt_of_lt_of_le (length_rest_scanToken_lt h) hle

end Window

end Jack
