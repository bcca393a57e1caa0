import Jack.Proofs.Token.Tokenization

/-!
# The lexical grammar is unambiguous

Where trivia and then the shape of a token stand in front, that token is read next and nothing more
is taken (`Window.scan_of_spells`). So a source has no other cut into trivia and tokens than the one
that is read.
-/

namespace Jack

open Text.Utf8 (Decoded bytes)

/-! ### Trivia -/

namespace Window

variable {w : Window} {bs rest : List UInt8}

/-- A run that cannot go on is taken as a whole. -/
lemma takeWhile_append_of_run {p : UInt8 → Bool} (hb : ∀ b ∈ bs, p b = true)
    (hn : ∀ b ∈ rest.head?, p b = false) :
    (bs ++ rest).takeWhile p = bs ∧ (bs ++ rest).dropWhile p = rest := by
  have hnil : rest.takeWhile p = [] ∧ rest.dropWhile p = rest := by
    cases rest with
    | nil => exact ⟨rfl, rfl⟩
    | cons b r =>
      have hf := hn b rfl
      simp [hf]
  rw [List.takeWhile_append_of_pos hb, List.dropWhile_append_of_pos hb, hnil.1, hnil.2,
    List.append_nil]
  exact ⟨rfl, rfl⟩

/-- A run of bytes is taken up to the first that does not belong to it. -/
lemma takeWhile_of_run {p : UInt8 → Bool} (hr : w.rest = bs ++ rest) (hb : ∀ b ∈ bs, p b = true)
    (hn : ∀ b ∈ rest.head?, p b = false) :
    (w.takeWhile p).1 = bs ∧ (w.takeWhile p).2.rest = rest := by
  rw [takeWhile_fst, rest_takeWhile, hr]
  exact takeWhile_append_of_run hb hn

/-- The first byte of the rest is the byte ahead. -/
lemma peek?_of_rest {b : UInt8} (hr : w.rest = b :: rest) : w.peek? = some b := by
  rw [peek?_eq, hr]
  rfl

/-- A comment is closed at a star and a slash, or else further on. -/
lemma closeComment_of_peek? {b : UInt8} (h : w.peek? = some b) :
    w.closeComment = if b == 0x2A && w.peekAt? 1 == some 0x2F then (true, w.skip 2)
      else w.advance.closeComment := by
  rw [closeComment]
  split
  · next hn => cases h.symm.trans hn
  · next c hc =>
    cases h.symm.trans hc
    rfl

/-- A comment ends with the first star and slash. -/
lemma closeComment_of_closed (hr : w.rest = bs ++ [0x2A, 0x2F] ++ rest)
    (hn : ¬ [0x2A, 0x2F] <:+: bs ++ [0x2A]) :
    w.closeComment.1 = true ∧ w.closeComment.2.rest = rest := by
  induction bs generalizing w with
  | nil =>
    have hp := peek?_of_rest hr
    rw [closeComment_of_peek? hp, if_pos ((peek_two_iff hp).2 ⟨rest, hr.symm⟩), rest_skip, hr]
    exact ⟨rfl, rfl⟩
  | cons b bs ih =>
    have hp := peek?_of_rest hr
    have hne : ¬ [0x2A, 0x2F] <+: w.rest := by
      intro hp
      rw [hr] at hp
      cases bs with
      | nil => simp [List.cons_prefix_cons] at hp
      | cons c cs =>
        simp only [List.cons_append, List.cons_prefix_cons] at hp
        obtain ⟨rfl, rfl, -⟩ := hp
        exact hn ⟨[], cs ++ [0x2A], rfl⟩
    rw [closeComment_of_peek? hp, if_neg (mt (peek_two_iff hp).1 hne)]
    refine ih ?_ (fun hi => hn (List.infix_cons hi))
    rw [rest_advance, hr]
    rfl

/-- Without a star and a slash a comment is open to the end. -/
lemma closeComment_of_open (hn : ¬ [0x2A, 0x2F] <:+: w.rest) :
    w.closeComment.1 = false ∧ w.closeComment.2.rest = [] := by
  obtain ⟨ht, hf⟩ := closeComment_spec w
  cases hc : w.closeComment.1 with
  | false => exact ⟨rfl, (hf hc).2.1⟩
  | true =>
    obtain ⟨body, -, hp⟩ := ht hc
    rw [hp.rest_eq] at hn
    exact absurd ⟨body, w.closeComment.2.rest, rfl⟩ hn

/-- A blank, a line comment or a block comment is skipped, and then what follows it. -/
lemma skipTrivia_of_peek? {b : UInt8} (h : w.peek? = some b) :
    w.skipTrivia =
      if isSpaceByte b then w.advance.skipTrivia
      else if b == 0x2F && w.peekAt? 1 == some 0x2F then
        ((w.skip 2).takeWhile (· != 0x0A)).2.skipTrivia
      else if b == 0x2F && w.peekAt? 1 == some 0x2A then
        if (w.skip 2).closeComment.1 then (w.skip 2).closeComment.2.skipTrivia
        else (some ⟨.error .unterminatedComment, ⟨w.pos, (w.skip 2).closeComment.2.pos⟩, "/*"⟩,
          (w.skip 2).closeComment.2)
      else (none, w) := by
  rw [skipTrivia]
  split
  · next hn => cases h.symm.trans hn
  · next c hc =>
    cases h.symm.trans hc
    rfl

/-- A block comment is skipped where it is closed, and else an error. -/
lemma skipTrivia_of_block (hr : w.rest = 0x2F :: 0x2A :: rest) :
    w.skipTrivia =
      if (w.skip 2).closeComment.1 then (w.skip 2).closeComment.2.skipTrivia
      else (some ⟨.error .unterminatedComment, ⟨w.pos, (w.skip 2).closeComment.2.pos⟩, "/*"⟩,
        (w.skip 2).closeComment.2) := by
  have hp := peek?_of_rest hr
  have hn : ¬ [0x2F, 0x2F] <+: w.rest := by simp [hr, List.cons_prefix_cons]
  rw [skipTrivia_of_peek? hp, if_neg (by decide), if_neg (mt (peek_two_iff hp).1 hn),
    if_pos ((peek_two_iff hp).2 ⟨rest, hr.symm⟩)]

/-- Nothing is skipped in front of a token. -/
lemma skipTrivia_of_solid (h : Solid w.rest) : w.skipTrivia = (none, w) := by
  obtain ⟨hs, hl, hb⟩ := h
  cases hp : w.peek? with
  | none =>
    rw [skipTrivia]
    split
    · rfl
    · next hn => cases hp.symm.trans hn
  | some b =>
    have hm : b ∈ w.rest.head? := by rw [← peek?_eq, hp]; rfl
    rw [skipTrivia_of_peek? hp, if_neg (mt isSpaceByte_iff.1 (hs b hm)),
      if_neg (mt (peek_two_iff hp).1 hl), if_neg (mt (peek_two_iff hp).1 hb)]

/-- Trivia is passed, and then what follows it is skipped. -/
lemma skipTrivia_of_trivia {g : List UInt8} (h : Trivia g rest) (hr : w.rest = g ++ rest) :
    ∃ v : Window, w.Passes g v ∧ w.skipTrivia = v.skipTrivia := by
  induction h generalizing w with
  | nil => exact ⟨w, .refl w, rfl⟩
  | space hb _ ih =>
    have hp := peek?_of_rest hr
    obtain ⟨v, hv, hs⟩ := ih (w := w.advance) (by rw [rest_advance, hr]; rfl)
    refine ⟨v, (passes_advance hr).trans hv, ?_⟩
    rw [skipTrivia_of_peek? hp, if_pos (isSpaceByte_iff.2 hb), hs]
  | @line body g rest hb hl _ ih =>
    have hp := peek?_of_rest hr
    have h2 : (w.skip 2).rest = body ++ (g ++ rest) := by
      rw [rest_skip, hr]
      simp
    obtain ⟨hbody, hrest⟩ :=
      takeWhile_of_run (p := (· != 0x0A)) h2 (by simpa using hb) (by simpa using hl)
    have hc := passes_takeWhile (· != 0x0A) (w.skip 2)
    rw [← takeWhile_fst, hbody] at hc
    obtain ⟨v, hv, hs⟩ := ih hrest
    refine ⟨v, (passes_skip [0x2F, 0x2F] ⟨_, hr.symm⟩).trans (hc.trans hv), ?_⟩
    rw [skipTrivia_of_peek? hp, if_neg (by decide), if_pos ((peek_two_iff hp).2 ⟨_, hr.symm⟩), hs]
  | @block body g rest hb _ ih =>
    have h2 : (w.skip 2).rest = body ++ [0x2A, 0x2F] ++ (g ++ rest) := by
      rw [rest_skip, hr]
      simp
    obtain ⟨ht, hrest⟩ := closeComment_of_closed h2 hb
    -- A comment ends where it is closed first, so that what is passed is this body.
    obtain ⟨body', -, hc⟩ := (closeComment_spec (w.skip 2)).1 ht
    rw [← hrest] at h2
    rw [hc.eq_of_rest h2] at hc
    obtain ⟨v, hv, hs⟩ := ih hrest
    refine ⟨v, (passes_skip [0x2F, 0x2A] ⟨_, hr.symm⟩).trans (hc.trans hv), ?_⟩
    rw [skipTrivia_of_block hr, if_pos ht, hs]

end Window

/-! ### Tokens -/

section
variable {b : UInt8} {bs rest : List UInt8} {k : TokenKind}

/-- Anything but a blank and a slash starts a token. -/
lemma solid_of_head (hs : ¬ IsSpace b) (hb : b ≠ 0x2F) : Window.Solid (b :: rest) := by
  refine ⟨by simpa using hs, ?_, ?_⟩ <;>
  · rw [List.cons_prefix_cons]
    exact fun h => hb h.1.symm

/-- Letters and digits start a token. -/
lemma solid_of_word (h : IsLetter b ∨ IsDigit b) : Window.Solid (b :: rest) := by
  apply solid_of_head <;>
  · simp only [IsLetter, IsDigit, IsSpace, List.mem_cons, List.not_mem_nil, or_false,
      UInt8.le_iff_toNat_le, ← UInt8.toNat_inj, UInt8.reduceToNat, ne_eq] at h ⊢
    omega

/-- A symbol is one byte, which is no white space, no part of a word and no quote. -/
lemma symbol_byte {c : Char} (h : c ∈ symbols) :
    ∃ b, String.utf8EncodeChar c = [b] ∧ Char.ofUInt8 b = c ∧ isSpaceByte b = false ∧
      isWordByte b = false ∧ b ≠ 0x22 ∧ (b = 0x2F → c = '/') := by
  have ha : symbols.all (fun c => isSpaceByte (UInt8.ofNat c.toNat) = false ∧
      isWordByte (UInt8.ofNat c.toNat) = false ∧ UInt8.ofNat c.toNat ≠ 0x22 ∧
      (UInt8.ofNat c.toNat = 0x2F → c = '/')) = true := by
    decide
  obtain ⟨he, hc⟩ := symbol_encoding c h
  exact ⟨_, he, hc, of_decide_eq_true (List.all_eq_true.1 ha c h)⟩

/-- Letters, digits and quotes are no symbols. -/
lemma isSymbol_eq_false (h : isWordByte b = true ∨ b = 0x22) :
    isSymbol (Char.ofUInt8 b) = false := by
  rw [Bool.eq_false_iff]
  intro hs
  have hm : Char.ofUInt8 b ∈ symbols := List.contains_iff_mem.1 hs
  obtain ⟨d, he, -, -, hw, hq, -⟩ := symbol_byte hm
  obtain rfl : b = d := by simpa [utf8EncodeChar_symbol hm] using he
  obtain h | h := h
  · exact Bool.false_ne_true (hw.symm.trans h)
  · exact hq h

/-- A spelling is not skipped, unless it is that of an open comment. -/
lemma Spells.solid (h : Spells bs rest k) (hk : k ≠ .error .unterminatedComment) :
    Window.Solid (bs ++ rest) := by
  cases h with
  | keyword hw _ _ | identifier hw _ _ =>
    obtain ⟨⟨b, r, rfl, hb, -⟩, -⟩ := hw
    exact solid_of_word (.inl hb)
  | symbol hc hn =>
    rw [← symbols_eq] at hc
    obtain ⟨b, he, -, hs, -, -, hslash⟩ := symbol_byte hc
    have hs' : ¬ IsSpace b := by
      rw [← isSpaceByte_iff, hs]
      exact Bool.false_ne_true
    rw [he]
    by_cases hb : b = 0x2F
    · -- What follows a slash tells it from the start of a comment.
      have hf := hn (hslash hb)
      refine ⟨by simpa using hs', ?_, ?_⟩ <;>
      · rw [List.singleton_append, List.cons_prefix_cons]
        rintro ⟨-, r, hr⟩
        simp [← hr] at hf
    · exact solid_of_head hs' hb
  | integer hd _ | overflow hd _ =>
    obtain ⟨b, r, rfl⟩ := List.exists_cons_of_ne_nil hd.1
    exact solid_of_word (.inr (hd.2.1 b List.mem_cons_self))
  | string _ _ | openString _ _ => exact solid_of_head (by unfold IsSpace; decide) (by decide)
  | openComment _ => exact absurd rfl hk
  | character hb _ | byte hb _ =>
    refine solid_of_head hb.1 ?_
    rintro rfl
    exact hb.2.2.2.2 '/' (by decide) (by decide)

end

namespace Window

variable {w : Window} {bs rest : List UInt8}

/-- A whole word is scanned as a keyword or an identifier. -/
lemma scanToken_of_wholeWord (h : WholeWord bs rest) (hr : w.rest = bs ++ rest) :
    ∃ word, bytes word = bs ∧ w.scanToken.2.rest = rest ∧ w.scanToken.1.kind =
      match Keyword.ofText? word with
      | some k => .keyword k
      | none => .identifier word := by
  obtain ⟨⟨b, r, rfl, hb, hr'⟩, hn⟩ := h
  have hw : ∀ d ∈ b :: r, isWordByte d = true :=
    List.forall_mem_cons.2 ⟨isWordByte_iff.2 (.inl hb), fun d hd => isWordByte_iff.2 (hr' d hd)⟩
  obtain ⟨ht, hrest⟩ := takeWhile_of_run hr hw fun d hd =>
    Bool.eq_false_iff.2 (mt isWordByte_iff.1 (hn d hd))
  have hs : w.scanToken = w.scanWord := by
    rw [scanToken, peek?_of_rest hr]
    exact if_pos (isWordStart_iff.2 hb)
  refine ⟨String.ofList (asciiChars (b :: r)), bytes_ofList_asciiChars ?_, ?_, ?_⟩
  · exact fun d hd => le_of_isWordByte (hw d hd)
  · rw [hs]
    exact hrest
  · rw [hs, ← ht]
    rfl

/-- A symbol is scanned as itself. -/
lemma scanToken_of_symbol {c : Char} (hc : c ∈ symbolText.toList)
    (hr : w.rest = String.utf8EncodeChar c ++ rest) :
    w.scanToken.1.kind = .symbol c ∧ w.scanToken.2.rest = rest := by
  rw [← symbols_eq] at hc
  obtain ⟨b, he, rfl, -, hw, -⟩ := symbol_byte hc
  have hl : isWordStart b = false := (Bool.or_eq_false_iff.1 hw).1
  rw [he] at hr
  have hs : w.scanToken = w.scanSymbol (Char.ofUInt8 b) := by
    rw [scanToken, peek?_of_rest hr]
    simp only [hl]
    exact if_pos (List.contains_iff_mem.2 hc)
  rw [hs, scanSymbol, rest_advance, hr]
  exact ⟨rfl, rfl⟩

/-- No word starts with a digit. -/
lemma isWordStart_of_digit {b : UInt8} (h : IsDigit b) : isWordStart b = false := by
  rw [Bool.eq_false_iff, ne_eq, isWordStart_iff]
  simp only [IsLetter, IsDigit, UInt8.le_iff_toNat_le, ← UInt8.toNat_inj,
    UInt8.reduceToNat] at h ⊢
  omega

/-- At a digit the scanner reads a number. -/
lemma scanToken_of_digit {b : UInt8} (hb : IsDigit b) (hr : w.rest = b :: rest) :
    w.scanToken = w.scanInteger := by
  rw [scanToken, peek?_of_rest hr]
  simp only [isWordStart_of_digit hb, isSymbol_eq_false (.inl (isWordByte_iff.2 (.inr hb)))]
  exact if_pos (isDigitByte_iff.2 hb)

/-- A run of digits is scanned as its number, or as an overflow. -/
lemma scanToken_of_digits (h : Digits bs rest) (hr : w.rest = bs ++ rest) :
    w.scanToken.2.rest = rest ∧ w.scanToken.1.kind =
      if digitsValue bs < UInt64.size then .integer (digitsValue bs)
      else .error .integerOverflow := by
  obtain ⟨hne, hd, hn⟩ := h
  obtain ⟨b, r, rfl⟩ := List.exists_cons_of_ne_nil hne
  obtain ⟨ht, hrest⟩ := takeWhile_of_run hr (fun d h => isDigitByte_iff.2 (hd d h)) fun d h =>
    Bool.eq_false_iff.2 (mt isDigitByte_iff.1 (hn d h))
  rw [scanToken_of_digit (hd b List.mem_cons_self) hr, kind_scanInteger, ← takeWhile_fst, ht]
  exact ⟨hrest, rfl⟩

/-- At a quote the scanner reads a string up to what may not stand in one. -/
lemma scanToken_of_quote (hq : Quotable bs) (hn : ∀ b ∈ rest.head?, isStringByte b = false)
    (hr : w.rest = 0x22 :: (bs ++ rest)) :
    w.scanToken = w.scanString ∧ (w.advance.takeWhile isStringByte).1 = bs ∧
      (w.advance.takeWhile isStringByte).2.rest = rest := by
  refine ⟨?_, takeWhile_of_run ?_ (fun b hb => isStringByte_iff.2 (hq b hb)) hn⟩
  · rw [scanToken, peek?_of_rest hr]
    rfl
  · rw [rest_advance, hr]
    rfl

/-- A closed string is scanned as its text. -/
lemma scanToken_of_string {text : String} (hq : Quotable bs) (hd : Decoded bs text.toList)
    (hr : w.rest = 0x22 :: (bs ++ [0x22]) ++ rest) :
    w.scanToken.1.kind = .string text ∧ w.scanToken.2.rest = rest := by
  have hr' : w.rest = 0x22 :: (bs ++ 0x22 :: rest) := by simpa using hr
  have hn : ∀ b ∈ (0x22 :: rest).head?, isStringByte b = false := by
    rintro b ⟨⟩
    rfl
  obtain ⟨hs, ht, hrest⟩ := scanToken_of_quote hq hn hr'
  have hb : Text.Utf8.lossy bs = text :=
    String.toList_inj.1 ((Text.Utf8.decoded_lossy bs).unique hd)
  have hp : ((w.advance.takeWhile isStringByte).2.peek? == some 0x22) = true := by
    rw [peek?_of_rest hrest]
    rfl
  rw [hs, scanString]
  simp only [if_pos hp, ht, hb, rest_advance, hrest]
  exact ⟨trivial, rfl⟩

/-- A string that is open at the end of the line is scanned as an error. -/
lemma scanToken_of_openString (hq : Quotable bs)
    (hn : ∀ b ∈ rest.head?, b = 0x0A ∨ b = 0x0D) (hr : w.rest = 0x22 :: bs ++ rest) :
    w.scanToken.1.kind = .error .unterminatedString ∧ w.scanToken.2.rest = rest := by
  have hn' : ∀ b ∈ rest.head?, isStringByte b = false := by
    intro b hb
    obtain rfl | rfl := hn b hb <;> rfl
  obtain ⟨hs, -, hrest⟩ := scanToken_of_quote hq hn' hr
  have hp : ¬ ((w.advance.takeWhile isStringByte).2.peek? == some 0x22) = true := by
    rw [peek?_eq, hrest, beq_iff_eq]
    intro h
    obtain h | h := hn _ h <;> exact absurd h (by decide)
  rw [hs, scanString]
  simp only [if_neg hp]
  exact ⟨trivial, hrest⟩

/-- At a stray byte the scanner takes its character for an error. -/
lemma scanToken_of_stray {b : UInt8} (hb : Stray b) (hr : w.rest = b :: rest) {c : Char}
    {after : Window} (hc : w.nextChar? = some (c, after)) :
    w.scanToken = w.strayToken c after := by
  obtain ⟨-, hl, hd, hq, hs⟩ := hb
  have hsym : ¬ isSymbol (Char.ofUInt8 b) = true := by
    intro h
    have hm : Char.ofUInt8 b ∈ symbols := List.contains_iff_mem.1 h
    exact hs _ (symbols_eq ▸ hm) (utf8EncodeChar_symbol hm)
  rw [scanToken, peek?_of_rest hr]
  simp only [if_neg (mt isWordStart_iff.1 hl), if_neg hsym, if_neg (mt isDigitByte_iff.1 hd),
    if_neg (mt beq_iff_eq.1 hq), hc]

/-- The token whose shape stands in front is read. -/
lemma scanToken_of_spells {k : TokenKind} (h : Spells bs rest k)
    (hk : k ≠ .error .unterminatedComment) (hr : w.rest = bs ++ rest) :
    w.scanToken.1.kind = k ∧ w.scanToken.2.rest = rest := by
  cases h with
  | keyword hw hb _ =>
    obtain ⟨word, hword, hrest, hkind⟩ := scanToken_of_wholeWord hw hr
    obtain rfl := Text.Utf8.bytes_injective (hword.trans hb)
    rw [hkind, Keyword.ofText?_text]
    exact ⟨rfl, hrest⟩
  | identifier hw hb hn =>
    obtain ⟨word, hword, hrest, hkind⟩ := scanToken_of_wholeWord hw hr
    obtain rfl := Text.Utf8.bytes_injective (hword.trans hb)
    rw [hkind, Keyword.ofText?_eq_none_iff.2 hn]
    exact ⟨rfl, hrest⟩
  | symbol hc _ => exact scanToken_of_symbol hc hr
  | integer hd hv =>
    obtain ⟨hrest, hkind⟩ := scanToken_of_digits hd hr
    exact ⟨hkind.trans (if_pos hv), hrest⟩
  | overflow hd hv =>
    obtain ⟨hrest, hkind⟩ := scanToken_of_digits hd hr
    exact ⟨hkind.trans (if_neg (Nat.not_lt_of_le hv)), hrest⟩
  | string hq hd => exact scanToken_of_string hq hd hr
  | openString hq hn => exact scanToken_of_openString hq hn hr
  | openComment _ => exact absurd rfl hk
  | @character b bs _ c hb hc =>
    obtain ⟨d, after, hd, hp⟩ | ⟨-, hn⟩ := nextChar?_cases hr
    · -- Two characters in front of the same bytes are one.
      rw [scanToken_of_stray hb hr hd]
      have he := hp.rest_eq.symm.trans hr
      rw [hc] at he
      obtain ⟨rfl, hrest⟩ := Text.Utf8.utf8EncodeChar_append_inj he
      exact ⟨rfl, hrest⟩
    · exact absurd ⟨rest, by rw [hr, hc]⟩ (hn c)
  | @byte b _ hb hn =>
    obtain ⟨d, after, hd, hp⟩ | ⟨hd, -⟩ := nextChar?_cases hr
    · exact absurd ⟨after.rest, hp.rest_eq.symm.trans hr⟩ (hn d)
    · rw [scanToken_of_stray hb hr hd, strayToken, rest_advance, hr]
      exact ⟨rfl, rfl⟩

/-- Behind trivia, the token whose shape comes next is read, from where the trivia ends, and nothing
more. -/
lemma scan_of_spells {g : List UInt8} {k : TokenKind} (hg : Trivia g (bs ++ rest))
    (h : Spells bs rest k) (hr : w.rest = g ++ (bs ++ rest)) :
    w.scan.1.kind = k ∧ w.scan.2.rest = rest ∧
      w.scan.1.span.start.offset = w.pos.offset + g.length := by
  obtain ⟨v, hp, hs⟩ := skipTrivia_of_trivia hg hr
  have hv := hp.rest_of_eq hr
  rw [← hp.offset_eq, scan, hs]
  -- An open comment is found while blanks are skipped, every other token behind them.
  by_cases hk : k = .error .unterminatedComment
  · subst hk
    cases h with
    | openComment hn =>
      rw [List.append_nil] at hv
      have hn' : ¬ [0x2A, 0x2F] <:+: (v.skip 2).rest := by rwa [rest_skip, hv]
      obtain ⟨hf, hrest⟩ := closeComment_of_open hn'
      rw [skipTrivia_of_block hv, if_neg (Bool.eq_false_iff.1 hf)]
      exact ⟨rfl, hrest, rfl⟩
  · have hsolid := h.solid hk
    rw [← hv] at hsolid
    rw [skipTrivia_of_solid hsolid]
    obtain ⟨hkind, hrest⟩ := scanToken_of_spells h hk hv
    refine ⟨hkind, hrest, ?_⟩
    show v.scanToken.1.span.start.offset = v.pos.offset
    obtain ⟨-, he⟩ | ⟨_, -, -, -, hspan⟩ := scanToken_spec hsolid
    · rw [he]
      rfl
    · rw [hspan]

/-- With nothing but blanks and comments ahead the end is scanned. -/
lemma scan_of_trivia {g : List UInt8} (hg : Trivia g []) (hr : w.rest = g) :
    w.scan.1.kind = .eof := by
  have hr' := hr.trans g.append_nil.symm
  obtain ⟨v, hp, hs⟩ := skipTrivia_of_trivia hg hr'
  have hv := hp.rest_of_eq hr'
  have hsolid : Solid v.rest := by
    rw [hv]
    exact ⟨nofun, by decide, by decide⟩
  rw [scan, hs, skipTrivia_of_solid hsolid]
  show v.scanToken.1.kind = .eof
  rw [scanToken, peek?_eq_none_iff.2 hv]

end Window

end Jack
