import Jack.Token.Stream
import Jack.Proofs.Source.Window

/-!
# The lexical grammar

The shapes of trivia and of tokens are given on byte lists, without a reader. The tokens of a source
cut it into trivia and shapes of this grammar (`Cut`), each as long as its shape allows.
-/

namespace Jack

open Text.Utf8 (Decoded bytes toNat_ofUInt8)

/-! ### Shapes -/

/-- Space, tab, line feed, vertical tab, form feed or carriage return. -/
def IsSpace (b : UInt8) : Prop := b ∈ [0x20, 0x09, 0x0A, 0x0B, 0x0C, 0x0D]

/-- A letter or an underscore. -/
def IsLetter (b : UInt8) : Prop :=
  (0x41 ≤ b ∧ b ≤ 0x5A) ∨ (0x61 ≤ b ∧ b ≤ 0x7A) ∨ b = 0x5F

/-- A decimal digit. -/
def IsDigit (b : UInt8) : Prop := 0x30 ≤ b ∧ b ≤ 0x39

/-- The spellings of the reserved words. -/
def reserved : List String :=
  ["class", "constructor", "function", "method", "field", "static", "var", "int", "char", "boolean",
    "void", "true", "false", "null", "this", "let", "do", "if", "else", "while", "return"]

/-- The characters that are tokens by themselves, in one text. -/
def symbolText : String := "{}()[].,;+-*/&|<>=~^#"

/-- The value of a run of digits. -/
def digitsValue (bs : List UInt8) : Nat := bs.foldl (fun n b => 10 * n + (b.toNat - 0x30)) 0

/-- White space and comments, with `rest` behind them. A line comment ends before a line feed or the
end; a block comment ends with the first star and slash behind its opening. -/
inductive Trivia : List UInt8 → List UInt8 → Prop where
  | nil {rest} : Trivia [] rest
  | space {b g rest} :
    IsSpace b →
    Trivia g rest →
    Trivia (b :: g) rest
  | line {body g rest} :
    (∀ b ∈ body, b ≠ 0x0A) →
    (∀ b ∈ (g ++ rest).head?, b = 0x0A) →
    Trivia g rest →
    Trivia (0x2F :: 0x2F :: (body ++ g)) rest
  | block {body g rest} :
    ¬ [0x2A, 0x2F] <:+: body ++ [0x2A] →
    Trivia g rest →
    Trivia (0x2F :: 0x2A :: (body ++ [0x2A, 0x2F] ++ g)) rest

/-- A word, as long as possible. -/
def WholeWord (w rest : List UInt8) : Prop :=
  (∃ b bs, w = b :: bs ∧ IsLetter b ∧ ∀ d ∈ bs, IsLetter d ∨ IsDigit d) ∧
    ∀ d ∈ rest.head?, ¬ (IsLetter d ∨ IsDigit d)

/-- A run of digits, as long as possible. -/
def Digits (w rest : List UInt8) : Prop :=
  w ≠ [] ∧ (∀ d ∈ w, IsDigit d) ∧ ∀ d ∈ rest.head?, ¬ IsDigit d

/-- Bytes that a string constant can hold: no quote, line feed or carriage return. -/
def Quotable (body : List UInt8) : Prop := ∀ b ∈ body, b ≠ 0x22 ∧ b ≠ 0x0A ∧ b ≠ 0x0D

/-- A byte with which no trivia and no token starts. -/
def Stray (b : UInt8) : Prop :=
  ¬ IsSpace b ∧ ¬ IsLetter b ∧ ¬ IsDigit b ∧ b ≠ 0x22 ∧
    ∀ c ∈ symbolText.toList, String.utf8EncodeChar c ≠ [b]

/-- The bytes `w`, with `rest` behind them, have the shape of a token of a kind. -/
inductive Spells : List UInt8 → List UInt8 → TokenKind → Prop where
  | keyword {w rest k} :
    WholeWord w rest → w = bytes k.text → k.text ∈ reserved →
    Spells w rest (.keyword k)
  | identifier {w rest name} :
    WholeWord w rest → w = bytes name → name ∉ reserved →
    Spells w rest (.identifier name)
  | symbol {c rest} :
    c ∈ symbolText.toList →
    (c = '/' → ∀ b ∈ rest.head?, b ≠ 0x2F ∧ b ≠ 0x2A) →
    Spells (String.utf8EncodeChar c) rest (.symbol c)
  | integer {w rest} :
    Digits w rest → digitsValue w < UInt64.size →
    Spells w rest (.integer (digitsValue w))
  | overflow {w rest} :
    Digits w rest → UInt64.size ≤ digitsValue w →
    Spells w rest (.error .integerOverflow)
  | string {body rest text} :
    Quotable body → Decoded body text.toList →
    Spells (0x22 :: (body ++ [0x22])) rest (.string text)
  | openString {body rest} :
    Quotable body → (∀ b ∈ rest.head?, b = 0x0A ∨ b = 0x0D) →
    Spells (0x22 :: body) rest (.error .unterminatedString)
  | openComment {body} :
    ¬ [0x2A, 0x2F] <:+: body →
    Spells (0x2F :: 0x2A :: body) [] (.error .unterminatedComment)
  | character {b bs rest c} :
    Stray b → b :: bs = String.utf8EncodeChar c →
    Spells (b :: bs) rest (.error (.unexpectedCharacter c))
  | byte {b rest} :
    Stray b → (∀ c, ¬ String.utf8EncodeChar c <+: b :: rest) →
    Spells [b] rest (.error (.unexpectedCharacter Text.Utf8.replacement))

/-- The lexeme of a token that spans the bytes `w`: their text, but of an open comment only its
opening. -/
def Token.SpelledAs (t : Token) (w : List UInt8) : Prop :=
  if t.kind = .error .unterminatedComment then t.lexeme = "/*" else Decoded w t.lexeme.toList

/-- The tokens cut the bytes, which start at an offset, into trivia and the bytes of their spans.
The last of them is the end of the input. -/
inductive Cut : Nat → List UInt8 → List Token → Prop where
  | eof {n g t} :
    Trivia g [] →
    t.kind = .eof → t.lexeme = "" →
    t.span.start.offset = n + g.length → t.span.stop.offset = n + g.length →
    Cut n g [t]
  | token {n g w rest t ts} :
    Trivia g (w ++ rest) →
    Spells w rest t.kind → t.SpelledAs w →
    t.span.start.offset = n + g.length → t.span.stop.offset = n + g.length + w.length →
    Cut (n + g.length + w.length) rest ts →
    Cut n (g ++ w ++ rest) (t :: ts)

/-- Nothing is spelled as the end of the input. -/
lemma Spells.kind_ne_eof {w rest k} (h : Spells w rest k) : k ≠ .eof := by
  cases h <;> exact TokenKind.noConfusion

/-! ### The classes of bytes -/

/-- The test for blanks finds the blanks. -/
lemma isSpaceByte_iff {b : UInt8} : isSpaceByte b = true ↔ IsSpace b := by
  simp [isSpaceByte, IsSpace, or_assoc]

/-- The test for the start of a word finds the letters. -/
lemma isWordStart_iff {b : UInt8} : isWordStart b = true ↔ IsLetter b := by
  simp only [isWordStart, IsLetter, Bool.or_eq_true, Bool.and_eq_true, decide_eq_true_eq,
    beq_iff_eq]
  rw [or_assoc, or_left_comm]

/-- The test for digits finds the digits. -/
lemma isDigitByte_iff {b : UInt8} : isDigitByte b = true ↔ IsDigit b := by
  simp [isDigitByte, IsDigit]

/-- The test for the bytes of a word finds letters and digits. -/
lemma isWordByte_iff {b : UInt8} : isWordByte b = true ↔ IsLetter b ∨ IsDigit b := by
  rw [isWordByte, Bool.or_eq_true, isWordStart_iff, isDigitByte_iff]

/-- The test for the bytes of a string finds all but quotes and ends of lines. -/
lemma isStringByte_iff {b : UInt8} :
    isStringByte b = true ↔ b ≠ 0x22 ∧ b ≠ 0x0A ∧ b ≠ 0x0D := by
  simp [isStringByte, and_assoc]

/-- The symbols are those of the text. -/
lemma symbols_eq : symbols = symbolText.toList := by decide

/-- A symbol is encoded as one byte, its code point. -/
lemma symbol_encoding : ∀ c ∈ symbols,
    String.utf8EncodeChar c = [UInt8.ofNat c.toNat] ∧ Char.ofUInt8 (UInt8.ofNat c.toNat) = c := by
  have h : symbols.all (fun c => String.utf8EncodeChar c = [UInt8.ofNat c.toNat] ∧
      Char.ofUInt8 (UInt8.ofNat c.toNat) = c) = true := by
    decide
  intro c hc
  exact of_decide_eq_true (List.all_eq_true.1 h c hc)

/-- A symbol is one byte. -/
lemma utf8EncodeChar_symbol {b : UInt8} (h : Char.ofUInt8 b ∈ symbols) :
    String.utf8EncodeChar (Char.ofUInt8 b) = [b] := by
  rw [(symbol_encoding _ h).1, toNat_ofUInt8, UInt8.ofNat_toNat]

/-- The byte of a symbol is that symbol. -/
lemma ofUInt8_mem_symbols {b : UInt8} {c : Char} (h : c ∈ symbols)
    (hb : String.utf8EncodeChar c = [b]) : Char.ofUInt8 b ∈ symbols := by
  obtain ⟨he, hc⟩ := symbol_encoding c h
  rw [he, List.cons.injEq] at hb
  rw [← hb.1, hc]
  exact h

/-- The bytes of a word are in the ASCII range. -/
lemma le_of_isWordByte {b : UInt8} (h : isWordByte b = true) : b.toNat ≤ 0x7F := by
  rw [isWordByte_iff] at h
  simp only [IsLetter, IsDigit, UInt8.le_iff_toNat_le, ← UInt8.toNat_inj, UInt8.reduceToNat] at h
  omega

/-! ### Texts -/

/-- ASCII bytes are the bytes of their characters. -/
lemma bytes_ofList_asciiChars {bs : List UInt8} (h : ∀ b ∈ bs, b.toNat ≤ 0x7F) :
    bytes (String.ofList (asciiChars bs)) = bs := by
  rw [bytes, String.toList_ofList, Text.Utf8.encode]
  induction bs with
  | nil => rfl
  | cons b bs ih =>
    rw [asciiChars, List.map_cons, List.flatMap_cons,
      Text.Utf8.utf8EncodeChar_ofUInt8 (h b List.mem_cons_self)]
    exact congrArg (b :: ·) (ih fun d hd => h d (List.mem_cons_of_mem b hd))

/-- ASCII bytes are decoded as their characters. -/
lemma decoded_asciiChars {bs : List UInt8} (h : ∀ b ∈ bs, b.toNat ≤ 0x7F) :
    Decoded bs (asciiChars bs) := by
  rw [asciiChars, ← Text.Utf8.toList_lossy_ascii h]
  exact Text.Utf8.decoded_lossy bs

/-- The reserved words are the texts of the keywords. -/
lemma reserved_eq : reserved = Keyword.all.map Keyword.text := by decide

/-- A word that is read as a keyword is its text. -/
lemma Keyword.text_of_ofText? {word : String} {k : Keyword} (h : ofText? word = some k) :
    k.text = word := by
  simpa using List.find?_some h

/-- The text of a keyword is reserved. -/
lemma Keyword.text_mem_reserved (k : Keyword) : k.text ∈ reserved := by
  rw [reserved_eq]
  exact List.mem_map_of_mem (by cases k <;> decide)

/-- The words that are no keywords are those not reserved. -/
lemma Keyword.ofText?_eq_none_iff {word : String} : ofText? word = none ↔ word ∉ reserved := by
  rw [reserved_eq, ofText?, List.find?_eq_none]
  simp

/-- The value of digits is the same for bytes and characters. -/
lemma decimalValue_asciiChars (bs : List UInt8) :
    Text.decimalValue (asciiChars bs) = digitsValue bs := by
  rw [Text.decimalValue, asciiChars, List.foldl_map, digitsValue]
  rfl

/-- A quote is one byte. -/
lemma utf8EncodeChar_quote : String.utf8EncodeChar '"' = [0x22] := by decide

/-- Bytes with a quote behind them are decoded with the quote behind. -/
lemma decoded_lossy_quote (body : List UInt8) :
    Decoded (body ++ [0x22]) ((Text.Utf8.lossy body).toList ++ ['"']) := by
  have h := Text.Utf8.decoded_lossy (body ++ [0x22])
  have hq : ∀ b ∈ [(0x22 : UInt8)], b.toNat ≤ 0x7F := List.forall_mem_singleton.2 (by decide)
  rw [Text.Utf8.lossy_append_ascii body [] (by decide), Text.Utf8.toList_lossy_ascii hq] at h
  exact h

/-- A token whose lexeme is what its bytes are decoded as is spelled as these. -/
lemma Token.spelledAs_of_decoded {t : Token} {w : List UInt8}
    (hk : t.kind ≠ .error .unterminatedComment) (h : Decoded w t.lexeme.toList) :
    t.SpelledAs w := by
  rw [SpelledAs, if_neg hk]
  exact h

namespace Window

variable {w v : Window}

/-! ### Trivia -/

/-- A pair of bytes that does not stand in front is looked for behind the first byte. -/
lemma not_infix_cons {x y b : UInt8} {bs r : List UInt8} (h : ¬ [x, y] <:+: bs)
    (hb : ¬ [x, y] <+: b :: r) (hr : bs <+: r) : ¬ [x, y] <:+: b :: bs := by
  rw [List.infix_cons_iff]
  rintro (hp | hi)
  · exact hb (hp.trans (List.cons_prefix_cons.2 ⟨rfl, hr⟩))
  · exact h hi

/-- A comment is closed at the first star and slash. -/
lemma closeComment_spec (w : Window) :
    (w.closeComment.1 = true → ∃ body, ¬ [0x2A, 0x2F] <:+: body ++ [0x2A] ∧
      w.Passes (body ++ [0x2A, 0x2F]) w.closeComment.2) ∧
    (w.closeComment.1 = false → ¬ [0x2A, 0x2F] <:+: w.rest ∧ w.closeComment.2.rest = [] ∧
      w.Passes w.rest w.closeComment.2) := by
  fun_induction closeComment w with
  | case1 w h =>
    refine ⟨fun ht => Bool.noConfusion ht, fun _ => ?_⟩
    rw [peek?_eq_none_iff.1 h]
    exact ⟨by decide, rfl, .refl w⟩
  | case2 w b h hb =>
    refine ⟨fun _ => ⟨[], by decide, ?_⟩, fun hf => Bool.noConfusion hf⟩
    exact passes_skip [0x2A, 0x2F] ((peek_two_iff h).1 hb)
  | case3 w b h hb ih =>
    obtain ⟨r, hr⟩ := exists_rest_of_peek? h
    have ha := passes_advance hr
    have hb' : ¬ [0x2A, 0x2F] <+: b :: r := by
      rw [← hr, ← peek_two_iff h]
      exact hb
    have hr' : w.advance.rest = r := by rw [rest_advance, hr]; rfl
    -- The comment is not closed at this byte, so the byte is one more of its body.
    constructor
    · intro ht
      obtain ⟨body, hn, hp⟩ := ih.1 ht
      refine ⟨b :: body, not_infix_cons hn hb' ?_, ha.trans hp⟩
      rw [← hr', hp.rest_eq]
      exact ⟨0x2F :: w.advance.closeComment.2.rest, by simp⟩
    · intro hf
      obtain ⟨hn, he, hp⟩ := ih.2 hf
      rw [hr'] at hn hp
      rw [hr]
      exact ⟨not_infix_cons hn hb' List.prefix_rfl, he, ha.trans hp⟩

/-- What is left starts with no trivia. -/
def Solid (rest : List UInt8) : Prop :=
  (∀ b ∈ rest.head?, ¬ IsSpace b) ∧ ¬ [0x2F, 0x2F] <+: rest ∧ ¬ [0x2F, 0x2A] <+: rest

/-- What is known when trivia is skipped. -/
def Skipped (w : Window) : Option Token × Window → Prop
  | (none, after) => ∃ g, w.Passes g after ∧ Trivia g after.rest ∧ Solid after.rest
  | (some t, after) => ∃ g start body, w.Passes g start ∧ Trivia g start.rest ∧
      start.Passes (0x2F :: 0x2A :: body) after ∧ after.rest = [] ∧ ¬ [0x2A, 0x2F] <:+: body ∧
      t = ⟨.error .unterminatedComment, ⟨start.pos, after.pos⟩, "/*"⟩

/-- What is skipped in front adds to what is skipped. -/
lemma Skipped.cons {x : List UInt8} {out : Option Token × Window} (hp : w.Passes x v)
    (hx : ∀ g rest, v.rest = g ++ rest → Trivia g rest → Trivia (x ++ g) rest)
    (h : v.Skipped out) : w.Skipped out := by
  match out, h with
  | (none, after), ⟨g, hg, ht, hs⟩ => exact ⟨x ++ g, hp.trans hg, hx g _ hg.rest_eq ht, hs⟩
  | (some t, after), ⟨g, start, body, hg, ht, hb⟩ =>
    exact ⟨x ++ g, start, body, hp.trans hg, hx g _ hg.rest_eq ht, hb⟩

/-- Skipping stops at a token, at the end, or at a comment that is left open. -/
lemma skipTrivia_spec (w : Window) : w.Skipped w.skipTrivia := by
  fun_induction skipTrivia w with
  | case1 w h =>
    refine ⟨[], .refl w, .nil, ?_⟩
    rw [peek?_eq_none_iff.1 h]
    exact ⟨by simp, by decide, by decide⟩
  | case2 w b h hb ih =>
    obtain ⟨r, hr⟩ := exists_rest_of_peek? h
    exact ih.cons (passes_advance hr) fun g rest _ ht => .space (isSpaceByte_iff.1 hb) ht
  | case3 w b h hb hc ih =>
    have hs := passes_skip [0x2F, 0x2F] ((peek_two_iff h).1 hc)
    refine ih.cons (hs.trans (passes_takeWhile _ _)) fun g rest hg ht => ?_
    refine .line ?_ ?_ ht
    · intro c hc
      simpa using List.all_eq_true.1 List.all_takeWhile c hc
    · intro c hc
      rw [← hg] at hc
      simpa using eq_false_of_mem_head?_takeWhile hc
  | case4 w b h hb hc hc' after ha ih =>
    have hs := passes_skip [0x2F, 0x2A] ((peek_two_iff h).1 hc')
    obtain ⟨body, hn, hp⟩ := (closeComment_spec (w.skip 2)).1 ha
    refine ih.cons (hs.trans hp) fun g rest hg ht => .block hn ht
  | case5 w b h hb hc hc' after ha =>
    have hs := passes_skip [0x2F, 0x2A] ((peek_two_iff h).1 hc')
    obtain ⟨hn, he, hp⟩ := (closeComment_spec (w.skip 2)).2 (Bool.eq_false_iff.2 ha)
    -- Nothing is skipped here: the open comment is itself the token.
    exact ⟨[], w, _, .refl w, .nil, hs.trans hp, he, hn, rfl⟩
  | case6 w b h hb hc hc' =>
    refine ⟨[], .refl w, .nil, ?_, ?_, ?_⟩
    · rw [← peek?_eq, h]
      simpa using mt isSpaceByte_iff.2 hb
    · rw [← peek_two_iff h]
      exact hc
    · rw [← peek_two_iff h]
      exact hc'

/-! ### Tokens -/

/-- What is known of a token that starts at once. -/
def Scanned (w : Window) (out : Token × Window) : Prop :=
  ∃ bs, w.Passes bs out.2 ∧ Spells bs out.2.rest out.1.kind ∧ out.1.SpelledAs bs ∧
    out.1.span = ⟨w.pos, out.2.pos⟩

/-- At a letter a word is scanned. -/
lemma scanWord_spec {b : UInt8} {r : List UInt8} (hr : w.rest = b :: r) (hb : IsLetter b) :
    w.Scanned w.scanWord := by
  have hp := passes_takeWhile isWordByte w
  have ha : ∀ d ∈ w.rest.takeWhile isWordByte, isWordByte d = true :=
    List.all_eq_true.1 List.all_takeWhile
  have hw : WholeWord (w.rest.takeWhile isWordByte) (w.takeWhile isWordByte).2.rest := by
    constructor
    · have hb' : isWordByte b = true := isWordByte_iff.2 (.inl hb)
      rw [hr, List.takeWhile_cons_of_pos hb'] at ha ⊢
      exact ⟨b, _, rfl, hb, fun d hd => isWordByte_iff.1 (ha d (List.mem_cons_of_mem b hd))⟩
    · intro d hd
      rw [← isWordByte_iff, eq_false_of_mem_head?_takeWhile hd]
      exact Bool.false_ne_true
  have hlow : ∀ d ∈ w.rest.takeWhile isWordByte, d.toNat ≤ 0x7F :=
    fun d hd => le_of_isWordByte (ha d hd)
  have hd := decoded_asciiChars hlow
  have hs := bytes_ofList_asciiChars hlow
  unfold scanWord
  simp only [takeWhile_fst]
  -- The spelling is the same for both kinds, and the list of keywords decides between them.
  cases hk : Keyword.ofText? (String.ofList (asciiChars (w.rest.takeWhile isWordByte))) with
  | none =>
    refine ⟨_, hp, ?_, Token.spelledAs_of_decoded nofun ?_, rfl⟩
    · exact .identifier hw hs.symm (Keyword.ofText?_eq_none_iff.1 hk)
    · rwa [String.toList_ofList]
  | some k =>
    refine ⟨_, hp, ?_, Token.spelledAs_of_decoded nofun ?_, rfl⟩
    · refine .keyword hw ?_ k.text_mem_reserved
      rw [Keyword.text_of_ofText? hk, hs]
    · rwa [String.toList_ofList]

/-- The digits taken from a digit on are a whole run of them. -/
lemma digits_takeWhile {b : UInt8} {r : List UInt8} (hr : w.rest = b :: r) (hb : IsDigit b) :
    Digits (w.rest.takeWhile isDigitByte) (w.takeWhile isDigitByte).2.rest := by
  have ha : ∀ d ∈ w.rest.takeWhile isDigitByte, isDigitByte d = true :=
    List.all_eq_true.1 List.all_takeWhile
  refine ⟨?_, fun d hd => isDigitByte_iff.1 (ha d hd), ?_⟩
  · rw [hr, List.takeWhile_cons_of_pos (isDigitByte_iff.2 hb)]
    exact List.cons_ne_nil _ _
  · intro d hd
    rw [← isDigitByte_iff, eq_false_of_mem_head?_takeWhile hd]
    exact Bool.false_ne_true

/-- A run of digits is a number where its value fits in 64 bits. -/
lemma kind_scanInteger (w : Window) :
    w.scanInteger.1.kind =
      if digitsValue (w.rest.takeWhile isDigitByte) < UInt64.size then
        .integer (digitsValue (w.rest.takeWhile isDigitByte))
      else .error .integerOverflow := by
  unfold scanInteger
  simp only [takeWhile_fst, Text.valueBelow?_eq (by decide : 0 < integerBound),
    decimalValue_asciiChars]
  by_cases hv : digitsValue (w.rest.takeWhile isDigitByte) < integerBound
  · simp only [if_pos hv]
    exact (if_pos hv).symm
  · simp only [if_neg hv]
    exact (if_neg hv).symm

/-- The lexeme of a number is its digits. -/
lemma lexeme_scanInteger (w : Window) :
    w.scanInteger.1.lexeme = String.ofList (asciiChars (w.rest.takeWhile isDigitByte)) := by
  rw [← takeWhile_fst]
  rfl

/-- At a digit a number is scanned. -/
lemma scanInteger_spec {b : UInt8} {r : List UInt8} (hr : w.rest = b :: r) (hb : IsDigit b) :
    w.Scanned w.scanInteger := by
  have hw := digits_takeWhile hr hb
  have hlow : ∀ d ∈ w.rest.takeWhile isDigitByte, d.toNat ≤ 0x7F :=
    fun d hd => le_of_isWordByte (isWordByte_iff.2 (.inr (hw.2.1 d hd)))
  refine ⟨_, passes_takeWhile isDigitByte w, ?_, Token.spelledAs_of_decoded ?_ ?_, rfl⟩
  · rw [kind_scanInteger]
    split
    · next hn => exact .integer hw hn
    · next hn => exact .overflow hw (Nat.le_of_not_lt hn)
  · rw [kind_scanInteger]
    split <;> nofun
  · rw [lexeme_scanInteger, String.toList_ofList]
    exact decoded_asciiChars hlow

/-- At a quote a string is scanned. -/
lemma scanString_spec {r : List UInt8} (hr : w.rest = 0x22 :: r) : w.Scanned w.scanString := by
  have ha := passes_advance hr
  have hp := passes_takeWhile isStringByte w.advance
  have hq : Quotable (w.advance.rest.takeWhile isStringByte) :=
    fun b hb => isStringByte_iff.1 (List.all_eq_true.1 List.all_takeWhile b hb)
  unfold scanString
  simp only [takeWhile_fst]
  split
  · next hc =>
    obtain ⟨r', hr'⟩ := exists_rest_of_peek? (beq_iff_eq.1 hc)
    have hl := passes_advance hr'
    refine ⟨_, ha.trans (hp.trans hl), .string hq (Text.Utf8.decoded_lossy _),
      Token.spelledAs_of_decoded nofun ?_, rfl⟩
    simpa [utf8EncodeChar_quote] using (decoded_lossy_quote _).char '"'
  · next hc =>
    refine ⟨_, ha.trans hp, .openString hq ?_, Token.spelledAs_of_decoded nofun ?_, rfl⟩
    · intro b hb
      have hn : b ≠ 0x22 := by
        rintro rfl
        rw [peek?_eq, Option.mem_def.1 hb] at hc
        exact hc rfl
      have hs := eq_false_of_mem_head?_takeWhile hb
      simp only [isStringByte, Bool.not_eq_false', Bool.or_eq_true, beq_iff_eq, or_assoc] at hs
      exact hs.resolve_left hn
    · simpa [utf8EncodeChar_quote] using (Text.Utf8.decoded_lossy _).char '"'

/-- At a symbol the symbol is scanned, where no comment starts. -/
lemma scanSymbol_spec {b : UInt8} {r : List UInt8} (hr : w.rest = b :: r) (hs : Solid w.rest)
    (hb : isSymbol (Char.ofUInt8 b) = true) : w.Scanned (w.scanSymbol (Char.ofUInt8 b)) := by
  have ha := passes_advance hr
  have hm : Char.ofUInt8 b ∈ symbols := List.contains_iff_mem.1 hb
  have he := utf8EncodeChar_symbol hm
  refine ⟨String.utf8EncodeChar (Char.ofUInt8 b), by rw [he]; exact ha, .symbol ?_ ?_,
    Token.spelledAs_of_decoded nofun ?_, rfl⟩
  · rwa [← symbols_eq]
  · intro hc x hx
    have hb' : b = 0x2F := by
      rw [← UInt8.toNat_inj, ← toNat_ofUInt8, hc]
      rfl
    obtain ⟨r', hr'⟩ := List.head?_eq_some_iff.1 hx
    have hrest : w.rest = 0x2F :: x :: r' := by
      rw [hr, hb', ← hr']
      simp [scanSymbol, hr]
    rw [hrest] at hs
    constructor
    · rintro rfl
      exact hs.2.1 ⟨r', rfl⟩
    · rintro rfl
      exact hs.2.2 ⟨r', rfl⟩
  · simpa [scanSymbol] using Decoded.nil.char (Char.ofUInt8 b)

/-- At a stray byte its character is scanned, as an error. -/
lemma strayToken_spec {b : UInt8} {r : List UInt8} (hr : w.rest = b :: r) (hb : Stray b) :
    ∃ c after, w.nextChar? = some (c, after) ∧ w.Scanned (w.strayToken c after) := by
  unfold strayToken
  obtain ⟨c, after, hc, hp⟩ | ⟨hc, hn⟩ := nextChar?_cases hr
  · refine ⟨c, after, hc, _, hp, ?_, Token.spelledAs_of_decoded nofun ?_, rfl⟩
    · obtain ⟨d, ds, he, -⟩ := Text.Utf8.exists_form_utf8EncodeChar c
      have hd := hp.rest_eq
      rw [he, hr, List.cons_append, List.cons.injEq] at hd
      obtain ⟨rfl, -⟩ := hd
      rw [he]
      exact .character hb he.symm
    · simpa using Decoded.nil.char c
  · have ha := passes_advance hr
    refine ⟨_, _, hc, _, ha, .byte hb ?_, Token.spelledAs_of_decoded nofun ?_, rfl⟩
    · rw [← ha.rest_eq.trans (List.singleton_append)]
      exact hn
    · rw [hr] at hn
      have hd := Text.Utf8.decoded_lossy [b]
      rw [Text.Utf8.toList_lossy_singleton hn] at hd
      simpa using hd

/-- Where nothing is to be skipped, the end is reached or a token is scanned. -/
lemma scanToken_spec (hs : Solid w.rest) :
    w.rest = [] ∧ w.scanToken = (⟨.eof, .point w.pos, ""⟩, w) ∨ w.Scanned w.scanToken := by
  unfold scanToken
  cases h : w.peek? with
  | none => exact .inl ⟨peek?_eq_none_iff.1 h, rfl⟩
  | some b =>
    obtain ⟨r, hr⟩ := exists_rest_of_peek? h
    refine .inr ?_
    simp only
    split
    · next hb => exact scanWord_spec hr (isWordStart_iff.1 hb)
    split
    · next hb => exact scanSymbol_spec hr hs hb
    split
    · next hb => exact scanInteger_spec hr (isDigitByte_iff.1 hb)
    split
    · next hb =>
      rw [beq_iff_eq.1 hb] at hr
      exact scanString_spec hr
    · next hw hy hd hq =>
      -- The tests that have failed are all that a stray byte has to fail.
      have hst : Stray b := by
        refine ⟨hs.1 b (by rw [hr]; rfl), mt isWordStart_iff.2 hw, mt isDigitByte_iff.2 hd,
          mt beq_iff_eq.2 hq, fun c hc he => hy ?_⟩
        rw [← symbols_eq] at hc
        exact List.contains_iff_mem.2 (ofUInt8_mem_symbols hc he)
      obtain ⟨c, after, hc, hsc⟩ := strayToken_spec hr hst
      simp only [hc]
      exact hsc

/-- What is known of the next token and the trivia in front of it. -/
def Read (w : Window) (out : Token × Window) : Prop :=
  (∃ g, w.Passes g out.2 ∧ Trivia g [] ∧ out.2.rest = [] ∧
    out.1 = ⟨.eof, .point out.2.pos, ""⟩) ∨
  ∃ g bs start, w.Passes g start ∧ start.Passes bs out.2 ∧ Trivia g (bs ++ out.2.rest) ∧
    Spells bs out.2.rest out.1.kind ∧ out.1.SpelledAs bs ∧ out.1.span = ⟨start.pos, out.2.pos⟩

/-- Scanning reads blanks and comments and then a token or the end. -/
lemma scan_spec (w : Window) : w.Read w.scan := by
  have hk := skipTrivia_spec w
  unfold scan
  generalize w.skipTrivia = out at hk
  obtain ⟨_ | t, after⟩ := out
  case none =>
    obtain ⟨g, hg, ht, hs⟩ := hk
    simp only
    obtain ⟨hr, he⟩ | ⟨bs, hp, hsp, hsa, hspan⟩ := scanToken_spec hs
    · rw [hr] at ht
      rw [he]
      exact .inl ⟨g, hg, ht, hr, rfl⟩
    · rw [hp.rest_eq] at ht
      exact .inr ⟨g, bs, after, hg, hp, ht, hsp, hsa, hspan⟩
  case some =>
    obtain ⟨g, start, body, hg, ht, hb, he, hn, rfl⟩ := hk
    rw [hb.rest_eq] at ht
    refine .inr ⟨g, _, start, hg, hb, ht, ?_, ?_, rfl⟩
    · simp only [he]
      exact .openComment hn
    · simp [Token.SpelledAs]

end Window

/-! ### All tokens -/

/-- The tokens that a reader hands out before it has no more. -/
inductive Lexer.Yields : Lexer → List Token → Prop where
  | done {l} : l.next?.1 = none → Yields l []
  | next {l t ts} : l.next?.1 = some t → Yields l.next?.2 ts → Yields l (t :: ts)

/-- At the end a lexer yields that end. -/
lemma Lexer.yields_eof {w : Window} (h : w.scan.1.kind = .eof) :
    Lexer.Yields ⟨w, false⟩ [w.scan.1] := by
  refine .next rfl (.done ?_)
  simp [next?, Token.isEof, h]

/-- A token that is not the end is followed by what is yielded behind it. -/
lemma Lexer.yields_cons {w : Window} {ts : List Token} (h : w.scan.1.kind ≠ .eof)
    (hy : Lexer.Yields ⟨w.scan.2, false⟩ ts) : Lexer.Yields ⟨w, false⟩ (w.scan.1 :: ts) := by
  refine .next rfl ?_
  have he : w.scan.1.isEof = false := by
    unfold Token.isEof
    split
    · next hk => exact absurd hk h
    · rfl
  simpa [next?, he] using hy

/-- The tokens from a window on are handed out one by one, and cut what is left. -/
lemma Window.tokensOnto_spec (w : Window) (out : Array Token) :
    ∃ ts, (w.tokensOnto out).toList = out.toList ++ ts ∧ Lexer.Yields ⟨w, false⟩ ts ∧
      Cut w.pos.offset w.rest ts := by
  fun_induction tokensOnto w out with
  | case1 w out h =>
    obtain ⟨g, hg, ht, hr, he⟩ | ⟨g, bs, start, -, -, -, hs, -⟩ := scan_spec w
    · refine ⟨[w.scan.1], by simp, Lexer.yields_eof h, ?_⟩
      have hn := hg.offset_eq
      rw [hg.rest_eq, hr, List.append_nil]
      exact .eof ht h (by rw [he]) (by rw [he]; exact hn) (by rw [he]; exact hn)
    · exact absurd h hs.kind_ne_eof
  | case2 w out h ih =>
    obtain ⟨g, hg, ht, hr, he⟩ | ⟨g, bs, start, hg, hb, ht, hs, hl, hspan⟩ := scan_spec w
    · exact absurd (congrArg Token.kind he) h
    · obtain ⟨ts, hts, hy, hcut⟩ := ih
      refine ⟨w.scan.1 :: ts, by simp [hts], Lexer.yields_cons h hy, ?_⟩
      rw [hg.rest_eq, hb.rest_eq, ← List.append_assoc]
      rw [hb.offset_eq, hg.offset_eq] at hcut
      refine .token ht hs hl ?_ ?_ hcut
      · rw [hspan]
        exact hg.offset_eq
      · rw [hspan, hb.offset_eq, hg.offset_eq]

/-- What holds of the end, and of every kind that is spelled out, holds of the kinds of all tokens.
-/
lemma Cut.forall_kind {P : TokenKind → Prop} (heof : P .eof)
    (hs : ∀ {w rest k}, Spells w rest k → P k) {n : Nat} {bs : List UInt8} {ts : List Token}
    (h : Cut n bs ts) : ∀ t ∈ ts, P t.kind := by
  induction h with
  | eof _ hk =>
    rw [List.forall_mem_singleton, hk]
    exact heof
  | token _ hk _ _ _ _ ih => exact List.forall_mem_cons.2 ⟨hs hk, ih⟩

/-- The tokens of a source are cut from it. -/
lemma cut_tokensOfBytes (source : List UInt8) : Cut 0 source (tokensOfBytes source) := by
  obtain ⟨ts, hts, -, hcut⟩ := Window.tokensOnto_spec (.ofSource ⟨source, .finished⟩) #[]
  rw [List.nil_append] at hts
  rw [Window.rest_ofSource] at hcut
  rw [tokensOfBytes, ByteSource.tokens, hts]
  exact hcut

/-- The tokens of a source are those that the lexer yields. -/
lemma yields_tokensOfBytes (source : List UInt8) :
    (Lexer.ofSource ⟨source, .finished⟩).Yields (tokensOfBytes source) := by
  obtain ⟨ts, hts, hy, -⟩ := Window.tokensOnto_spec (.ofSource ⟨source, .finished⟩) #[]
  rw [List.nil_append] at hts
  rw [tokensOfBytes, ByteSource.tokens, hts]
  exact hy

/-- The tokens of a source have a property that the end of the input and all that is spelled out
have. -/
lemma forall_kind_tokensOfBytes {P : TokenKind → Prop} (heof : P .eof)
    (hs : ∀ {w rest k}, Spells w rest k → P k) (source : List UInt8) :
    ∀ t ∈ tokensOfBytes source, P t.kind :=
  (cut_tokensOfBytes source).forall_kind heof hs

/-- What holds of the end, and of every kind that is spelled out, holds of the kinds of a source. -/
lemma forall_kind_tokensOf {P : TokenKind → Prop} (heof : P .eof)
    (hs : ∀ {w rest k}, Spells w rest k → P k) (source : String) :
    ∀ t ∈ tokensOf source, P t.kind :=
  forall_kind_tokensOfBytes heof hs (bytes source)

/-- The tokens that are handed out for a source cut it exactly: the bytes between their spans are
trivia, and each span holds the shape of its kind. -/
theorem tokens_cut_source (source : List UInt8) :
    (Lexer.ofSource ⟨source, .finished⟩).Yields (tokensOfBytes source) ∧
      Cut 0 source (tokensOfBytes source) := by
  obtain ⟨ts, hts, hy, hcut⟩ := Window.tokensOnto_spec (.ofSource ⟨source, .finished⟩) #[]
  rw [List.nil_append] at hts
  rw [Window.rest_ofSource] at hcut
  rw [tokensOfBytes, ByteSource.tokens, hts]
  exact ⟨hy, hcut⟩

/-- The bytes of a source that a span covers. -/
def Span.bytes (span : Span) (source : List UInt8) : List UInt8 :=
  (source.drop span.start.offset).take span.length

/-- The lexeme of an open comment is not the text that its span covers. -/
theorem open_comment_lexeme :
    ∃ t ∈ tokensOfBytes (bytes "/* x"), t.kind ≠ .eof ∧
      ¬ Decoded (t.span.bytes (bytes "/* x")) t.lexeme.toList := by
  have ht : tokensOfBytes (bytes "/* x") =
      [⟨.error .unterminatedComment, ⟨⟨0, 1, 1⟩, ⟨4, 1, 5⟩⟩, "/*"⟩,
        ⟨.eof, .point ⟨4, 1, 5⟩, ""⟩] := by
    decide +kernel
  refine ⟨_, by rw [ht]; exact List.mem_cons_self, TokenKind.noConfusion, fun hd => ?_⟩
  have hl := hd.unique (Text.Utf8.decoded_lossy _)
  have hx : (Text.Utf8.lossy (Span.bytes ⟨⟨0, 1, 1⟩, ⟨4, 1, 5⟩⟩ (bytes "/* x"))).toList =
      ['/', '*', ' ', 'x'] := by
    decide +kernel
  rw [hx] at hl
  exact absurd hl (by decide)

end Jack
