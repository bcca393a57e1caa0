import Jack.Proofs.Source.Cursor
import Jack.Proofs.Token.Tokenization

/-!
# Tokens by index

The tokens of a source whose bytes are all at hand, read by indexing them. Where a window and a
cursor stand at the same place, both read the same token and then stand at the same place again. So
the window is not seen in the tokens (`window_invisible`): they are those read by index, and those
of a source that fails are the tokens of the bytes it gave.
-/

namespace Jack

namespace Cursor

/-- Where there is a byte the rest is not empty. -/
lemma lt_of_byteAt? {c : Cursor} {b : UInt8} (h : c.byteAt? 0 = some b) : 0 < c.rest.length := by
  rw [byteAt?_eq] at h
  exact (List.getElem?_eq_some_iff.1 h).1

/-- Skipping from a byte on leaves less. -/
lemma length_rest_skip_lt {c : Cursor} {b : UInt8} (h : c.byteAt? 0 = some b) (n : Nat) :
    (c.skip (n + 1)).rest.length < c.rest.length := by
  have := lt_of_byteAt? h
  rw [length_rest_skip]
  omega

/-- Taking bytes leaves no more than there were. -/
lemma length_rest_takeWhile_le (p : UInt8 → Bool) (c : Cursor) :
    (c.takeWhile p).2.rest.length ≤ c.rest.length := by
  rw [takeWhile, rest_after (List.takeWhile_append_dropWhile (p := p)).symm]
  exact (List.dropWhile_sublist p).length_le

/-- Moves behind the end of a block comment, if there is one. -/
def closeComment (c : Cursor) : Bool × Cursor :=
  match _h : c.byteAt? 0 with
  | none => (false, c)
  | some b =>
    if b == 0x2A && c.byteAt? 1 == some 0x2F then (true, c.skip 2)
    else closeComment (c.skip 1)
termination_by c.rest.length
decreasing_by exact length_rest_skip_lt _h 0

/-- Looking for the end of a comment leaves no more than there was. -/
lemma length_rest_closeComment_le (c : Cursor) :
    c.closeComment.2.rest.length ≤ c.rest.length := by
  fun_induction closeComment c with
  | case1 => exact Nat.le_refl _
  | case2 c b h _ => exact Nat.le_of_lt (length_rest_skip_lt h 1)
  | case3 c b h _ ih => exact Nat.le_trans ih (Nat.le_of_lt (length_rest_skip_lt h 0))

/-- Moves behind white space and comments. -/
def skipTrivia (c : Cursor) : Option Token × Cursor :=
  match _h : c.byteAt? 0 with
  | none => (none, c)
  | some b =>
    if isSpaceByte b then skipTrivia (c.skip 1)
    else if b == 0x2F && c.byteAt? 1 == some 0x2F then
      skipTrivia ((c.skip 2).takeWhile (· != 0x0A)).2
    else if b == 0x2F && c.byteAt? 1 == some 0x2A then
      let after := (c.skip 2).closeComment
      if after.1 then skipTrivia after.2
      else (some ⟨.error .unterminatedComment, ⟨c.pos, after.2.pos⟩, "/*"⟩, after.2)
    else (none, c)
termination_by c.rest.length
decreasing_by
  · exact length_rest_skip_lt _h 0
  · exact Nat.lt_of_le_of_lt (length_rest_takeWhile_le _ _) (length_rest_skip_lt _h 1)
  · exact Nat.lt_of_le_of_lt (length_rest_closeComment_le _) (length_rest_skip_lt _h 1)

/-- Reads a word. -/
def scanWord (c : Cursor) : Token × Cursor :=
  let taken := c.takeWhile isWordByte
  let word := String.ofList (asciiChars taken.1)
  let kind := match Keyword.ofText? word with
    | some k => .keyword k
    | none => .identifier word
  (⟨kind, ⟨c.pos, taken.2.pos⟩, word⟩, taken.2)

/-- Reads a run of digits. -/
def scanInteger (c : Cursor) : Token × Cursor :=
  let taken := c.takeWhile isDigitByte
  let digits := asciiChars taken.1
  let kind := match Text.valueBelow? integerBound digits with
    | some n => .integer n
    | none => .error .integerOverflow
  (⟨kind, ⟨c.pos, taken.2.pos⟩, String.ofList digits⟩, taken.2)

/-- Reads a string constant. -/
def scanString (c : Cursor) : Token × Cursor :=
  let taken := (c.skip 1).takeWhile isStringByte
  let body := Text.Utf8.lossy taken.1
  if taken.2.byteAt? 0 == some 0x22 then
    let after := taken.2.skip 1
    (⟨.string body, ⟨c.pos, after.pos⟩, "\"" ++ body ++ "\""⟩, after)
  else (⟨.error .unterminatedString, ⟨c.pos, taken.2.pos⟩, "\"" ++ body⟩, taken.2)

/-- Reads the token that starts at the next byte. -/
def scanToken (c : Cursor) : Token × Cursor :=
  match c.byteAt? 0 with
  | none => (⟨.eof, .point c.pos, ""⟩, c)
  | some b =>
    if isWordStart b then c.scanWord
    else if isSymbol (Char.ofUInt8 b) then
      (⟨.symbol (Char.ofUInt8 b), ⟨c.pos, (c.skip 1).pos⟩, (Char.ofUInt8 b).toString⟩, c.skip 1)
    else if isDigitByte b then c.scanInteger
    else if b == 0x22 then c.scanString
    else match c.nextChar? with
      | some (d, after) =>
        (⟨.error (.unexpectedCharacter d), ⟨c.pos, after.pos⟩, d.toString⟩, after)
      | none => (⟨.eof, .point c.pos, ""⟩, c)

/-- Reads the next token. -/
def scan (c : Cursor) : Token × Cursor :=
  match c.skipTrivia with
  | (some t, after) => (t, after)
  | (none, after) => after.scanToken

end Cursor

namespace Cursor

variable {c : Cursor} {b : UInt8}

/-- At the end of the input a comment is not closed. -/
lemma closeComment_of_end (h : c.byteAt? 0 = none) : c.closeComment = (false, c) := by
  rw [closeComment]
  split
  · rfl
  · next hb => cases h.symm.trans hb

/-- A comment is closed at a star and a slash, or else further on. -/
lemma closeComment_of_byteAt? (h : c.byteAt? 0 = some b) :
    c.closeComment =
      if b == 0x2A && c.byteAt? 1 == some 0x2F then (true, c.skip 2)
      else (c.skip 1).closeComment := by
  rw [closeComment]
  split
  · next hn => cases h.symm.trans hn
  · next hb =>
    cases h.symm.trans hb
    rfl

/-- At the end of the input there is nothing to skip. -/
lemma skipTrivia_of_end (h : c.byteAt? 0 = none) : c.skipTrivia = (none, c) := by
  rw [skipTrivia]
  split
  · rfl
  · next hb => cases h.symm.trans hb

/-- A blank, a line comment or a block comment is skipped, and then what follows it. -/
lemma skipTrivia_of_byteAt? (h : c.byteAt? 0 = some b) :
    c.skipTrivia =
      if isSpaceByte b then (c.skip 1).skipTrivia
      else if b == 0x2F && c.byteAt? 1 == some 0x2F then
        ((c.skip 2).takeWhile (· != 0x0A)).2.skipTrivia
      else if b == 0x2F && c.byteAt? 1 == some 0x2A then
        if (c.skip 2).closeComment.1 then (c.skip 2).closeComment.2.skipTrivia
        else (some ⟨.error .unterminatedComment, ⟨c.pos, (c.skip 2).closeComment.2.pos⟩, "/*"⟩,
          (c.skip 2).closeComment.2)
      else (none, c) := by
  rw [skipTrivia]
  split
  · next hn => cases h.symm.trans hn
  · next hb =>
    cases h.symm.trans hb
    rfl

end Cursor

namespace Window.Sees

variable {w : Window} {c : Cursor}

/-- A window and a cursor close a comment at the same place. -/
lemma closeComment (h : w.Sees c) : Agrees w.closeComment c.closeComment := by
  fun_induction Window.closeComment w generalizing c with
  | case1 w hw =>
    rw [Cursor.closeComment_of_end (h.peek?.symm.trans hw)]
    exact ⟨rfl, h⟩
  | case2 w b hw hb =>
    rw [h.peekAt? (by decide)] at hb
    rw [Cursor.closeComment_of_byteAt? (h.peek?.symm.trans hw), if_pos hb]
    exact ⟨rfl, h.skip 2⟩
  | case3 w b hw hb ih =>
    rw [h.peekAt? (by decide)] at hb
    rw [Cursor.closeComment_of_byteAt? (h.peek?.symm.trans hw), if_neg hb]
    exact ih h.advance

/-- A window and a cursor skip the same blanks and comments. -/
lemma skipTrivia (h : w.Sees c) : Agrees w.skipTrivia c.skipTrivia := by
  fun_induction Window.skipTrivia w generalizing c with
  | case1 w hw =>
    rw [Cursor.skipTrivia_of_end (h.peek?.symm.trans hw)]
    exact ⟨rfl, h⟩
  | case2 w b hw hs ih =>
    rw [Cursor.skipTrivia_of_byteAt? (h.peek?.symm.trans hw), if_pos hs]
    exact ih h.advance
  | case3 w b hw hs hl ih =>
    -- The byte behind the slash is within the look-ahead.
    rw [h.peekAt? (by decide)] at hl
    rw [Cursor.skipTrivia_of_byteAt? (h.peek?.symm.trans hw), if_neg hs, if_pos hl]
    exact ih ((h.skip 2).takeWhile _).sees
  | case4 w b hw hs hl hb after ha =>
    rename_i ih
    rw [h.peekAt? (by decide)] at hl hb
    have hc : Agrees after (c.skip 2).closeComment := (h.skip 2).closeComment
    rw [hc.answer] at ha
    rw [Cursor.skipTrivia_of_byteAt? (h.peek?.symm.trans hw), if_neg hs, if_neg hl, if_pos hb,
      if_pos ha]
    exact ih hc.sees
  | case5 w b hw hs hl hb after =>
    rename_i ha
    rw [h.peekAt? (by decide)] at hl hb
    have hc : Agrees after (c.skip 2).closeComment := (h.skip 2).closeComment
    rw [hc.answer] at ha
    rw [Cursor.skipTrivia_of_byteAt? (h.peek?.symm.trans hw), if_neg hs, if_neg hl, if_pos hb,
      if_neg ha]
    exact ⟨by rw [h.pos_eq, hc.sees.pos_eq], hc.sees⟩
  | case6 w b hw hs hl hb =>
    rw [h.peekAt? (by decide)] at hl hb
    rw [Cursor.skipTrivia_of_byteAt? (h.peek?.symm.trans hw), if_neg hs, if_neg hl, if_neg hb]
    exact ⟨rfl, h⟩

/-- A window and a cursor scan the same word. -/
lemma scanWord (h : w.Sees c) : Agrees w.scanWord c.scanWord := by
  have ht := h.takeWhile isWordByte
  unfold Window.scanWord Cursor.scanWord
  simp only [ht.answer, ht.sees.pos_eq, h.pos_eq]
  exact ⟨rfl, ht.sees⟩

/-- A window and a cursor scan the same number. -/
lemma scanInteger (h : w.Sees c) : Agrees w.scanInteger c.scanInteger := by
  have ht := h.takeWhile isDigitByte
  unfold Window.scanInteger Cursor.scanInteger
  simp only [ht.answer, ht.sees.pos_eq, h.pos_eq]
  exact ⟨rfl, ht.sees⟩

/-- A window and a cursor scan the same string. -/
lemma scanString (h : w.Sees c) : Agrees w.scanString c.scanString := by
  have ht := h.advance.takeWhile isStringByte
  unfold Window.scanString Cursor.scanString
  simp only [ht.answer, ht.sees.peek?, ht.sees.pos_eq, ht.sees.advance.pos_eq, h.pos_eq]
  split
  · exact ⟨rfl, ht.sees.advance⟩
  · exact ⟨rfl, ht.sees⟩

/-- A window and a cursor scan the same token. -/
lemma scanToken (h : w.Sees c) : Agrees w.scanToken c.scanToken := by
  unfold Window.scanToken Cursor.scanToken
  rw [h.peek?]
  cases hb : c.byteAt? 0 with
  | none => exact ⟨by rw [h.pos_eq], h⟩
  | some b =>
    have hr : ∃ r, c.rest = b :: r := by
      rw [Cursor.byteAt?_eq, ← List.head?_eq_getElem?] at hb
      exact List.head?_eq_some_iff.1 hb
    simp only
    split
    · exact h.scanWord
    split
    · exact ⟨by rw [Window.scanSymbol, h.pos_eq, h.advance.pos_eq], h.advance⟩
    split
    · exact h.scanInteger
    split
    · exact h.scanString
    · obtain ⟨r, hr⟩ := hr
      obtain ⟨d, v, u, hv, hu, hs⟩ := h.nextChar? hr
      simp only [hv, hu, strayToken, h.pos_eq, hs.pos_eq]
      exact ⟨rfl, hs⟩

/-- A window and a cursor scan the same token behind blanks and comments. -/
lemma scan (h : w.Sees c) : Agrees w.scan c.scan := by
  have hs := h.skipTrivia
  unfold Window.scan Cursor.scan
  generalize w.skipTrivia = out at hs
  generalize c.skipTrivia = out' at hs
  obtain ⟨t, v⟩ := out
  obtain ⟨t', u⟩ := out'
  obtain rfl : t = t' := hs.answer
  cases t with
  | none => exact Sees.scanToken hs.sees
  | some t => exact ⟨rfl, hs.sees⟩

end Window.Sees

/-- Reading a token other than the end of the input leaves less to read. -/
lemma Cursor.length_rest_scan_lt {c : Cursor} (h : c.scan.1.kind ≠ .eof) :
    c.scan.2.rest.length < c.rest.length := by
  obtain ⟨w, hw⟩ := Window.exists_sees c
  have hs := hw.scan
  rw [← hs.answer] at h
  rw [← hs.sees.rest_eq, ← hw.rest_eq]
  exact Window.length_rest_scan_lt h

/-- All tokens from a cursor on, the end of the input last. -/
def Cursor.tokens (c : Cursor) : List Token :=
  if _h : c.scan.1.kind = .eof then [c.scan.1] else c.scan.1 :: c.scan.2.tokens
termination_by c.rest.length
decreasing_by exact Cursor.length_rest_scan_lt _h

/-- A window and a cursor scan the same tokens up to the end. -/
lemma Window.Sees.tokensOnto {w : Window} {c : Cursor} (h : w.Sees c) (out : Array Token) :
    (w.tokensOnto out).toList = out.toList ++ c.tokens := by
  fun_induction Window.tokensOnto w out generalizing c with
  | case1 w out hk =>
    rw [h.scan.answer] at hk
    rw [Cursor.tokens, dif_pos hk, h.scan.answer, Array.toList_push]
  | case2 w out hk ih =>
    rw [h.scan.answer] at hk
    have ht : c.tokens = c.scan.1 :: c.scan.2.tokens := by rw [Cursor.tokens, dif_neg hk]
    rw [ih h.scan.sees, ht, Array.toList_push, List.append_assoc, List.singleton_append,
      h.scan.answer]

/-- The tokens of a source are those read by index, however the source ends. -/
lemma ByteSource.tokens_eq (source : ByteSource) :
    source.tokens = (Cursor.start source.bytes).tokens := by
  rw [tokens, (Window.sees_start source).tokensOnto]
  exact List.nil_append _

/-- However a window is moved on a source, its buffer and what was not delivered yet are the source
from its offset on, the buffer is as full as it can be, and looking ahead indexes the source. So the
tokens are those read by index, and of a source that fails they are the tokens of the bytes that it
gave. -/
theorem window_invisible (source : List UInt8) (how : Ending) :
    (∀ moves : List Window.Motion,
      (moves.foldl Window.moved (.ofSource ⟨source, how⟩)).Shows source) ∧
    (Lexer.ofSource ⟨source, how⟩).Yields (Cursor.start source).tokens ∧
    ∀ n, (Lexer.ofSource (.failingAfter n source)).Yields (tokensOfBytes (source.take n)) := by
  have hy (s : ByteSource) : (Lexer.ofSource s).Yields (Cursor.start s.bytes).tokens := by
    obtain ⟨ts, hts, hy, -⟩ := Window.tokensOnto_spec (.ofSource s) #[]
    rw [← s.tokens_eq, ByteSource.tokens, hts]
    exact hy
  refine ⟨fun moves => ?_, hy ⟨source, how⟩, fun n => ?_⟩
  · obtain ⟨bs, hb⟩ := Window.exists_passes_moves (.ofSource ⟨source, how⟩) moves
    exact hb.shows
  · rw [tokensOfBytes, ByteSource.tokens_eq]
    exact hy (.failingAfter n source)

end Jack
