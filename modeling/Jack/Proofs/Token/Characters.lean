import Jack.Proofs.Token.Boundaries
import Jack.Proofs.Token.Positions

/-!
# Characters that start no token

The character in front of a source is read from as many bytes as its first byte announces, of those
that are in view, and these are decoded strictly. So a well-formed character is always found, and
nothing else is taken for one. In a text, this makes one token of each character that starts none: a
text is cut between its characters into trivia, such characters and tokens (`TextCut`).
-/

namespace Jack

open Text.Utf8

/-- Characters below 128 that are no letter, digit or symbol, and yet start trivia or a token. -/
def otherStarts : List Char := ['_', '"', ' ', '\t', '\n', '\x0B', '\x0C', '\r']

/-- A character with which no trivia and no token starts. -/
def StrayChar (c : Char) : Prop :=
  c ∉ symbolText.toList ∧ c.isAlphanum = false ∧ c ∉ otherStarts

/-- The characters of a text, from an offset on, are cut into trivia, characters that start no token
with an error token for each, and the characters of the other tokens. The last token is the end of
the input. -/
inductive TextCut : Nat → List Char → List Token → Prop where
  | eof {n g t} :
    Trivia (encode g) [] →
    t.kind = .eof →
    t.span.start.offset = n + (encode g).length → t.span.stop.offset = n + (encode g).length →
    TextCut n g [t]
  | stray {n g c rest t ts} :
    Trivia (encode g) (encode (c :: rest)) →
    StrayChar c →
    t.kind = .error (.unexpectedCharacter c) → t.lexeme = c.toString →
    t.span.start.offset = n + (encode g).length →
    t.span.stop.offset = n + (encode g).length + (encode [c]).length →
    TextCut (n + (encode g).length + (encode [c]).length) rest ts →
    TextCut n (g ++ c :: rest) (t :: ts)
  | token {n g c w rest t ts} :
    Trivia (encode g) (encode (c :: w ++ rest)) →
    ¬ StrayChar c →
    Spells (encode (c :: w)) (encode rest) t.kind →
    (∀ d, t.kind ≠ .error (.unexpectedCharacter d)) →
    t.span.start.offset = n + (encode g).length →
    t.span.stop.offset = n + (encode g).length + (encode (c :: w)).length →
    TextCut (n + (encode g).length + (encode (c :: w)).length) rest ts →
    TextCut n (g ++ (c :: w ++ rest)) (t :: ts)

section
variable {b : UInt8} {bs rest : List UInt8} {c d : Char} {k : TokenKind}

/-! ### Characters and their first bytes -/

/-- Of the characters below 128, letters, digits and the like are told by their bytes. -/
lemma starts_eq : (List.range 128).all (fun n =>
    (isSpaceByte (.ofNat n) || isWordByte (.ofNat n) || UInt8.ofNat n == 0x22) ==
      ((Char.ofNat n).isAlphanum || otherStarts.contains (Char.ofNat n))) = true := by
  decide +kernel

/-- An ASCII byte starts a token or a blank exactly where its character does. -/
lemma starts_iff (hb : b.toNat ≤ 0x7F) (hc : c.toNat = b.toNat) :
    IsSpace b ∨ (IsLetter b ∨ IsDigit b) ∨ b = 0x22 ↔ c.isAlphanum = true ∨ c ∈ otherStarts := by
  have h := List.all_eq_true.1 starts_eq b.toNat (List.mem_range.2 (Nat.lt_succ_of_le hb))
  rw [← hc, Char.ofNat_toNat, hc, UInt8.ofNat_toNat, beq_iff_eq, Bool.eq_iff_iff] at h
  rw [← isSpaceByte_iff, ← isWordByte_iff, ← beq_iff_eq (a := b), ← List.contains_iff_mem]
  simpa only [Bool.or_eq_true, or_assoc] using h

/-- Letters and digits are ASCII characters. -/
lemma toNat_le_of_isAlphanum (h : c.isAlphanum = true) : c.toNat ≤ 0x7F := by
  have h' : (decide ('A'.val ≤ c.val ∧ c.val ≤ 'Z'.val) ||
      (decide ('a'.val ≤ c.val) && decide (c.val ≤ 'z'.val)) ||
      (decide ('0'.val ≤ c.val) && decide (c.val ≤ '9'.val))) = true := h
  simp only [Bool.or_eq_true, Bool.and_eq_true, decide_eq_true_eq, UInt32.le_iff_toNat_le,
    Char.reduceVal, UInt32.reduceToNat] at h'
  have hv : c.val.toNat = c.toNat := rfl
  omega

/-- Symbols and the other starts are below 128. -/
lemma low_eq : (symbolText.toList ++ otherStarts).all (·.toNat ≤ 0x7F) = true := by
  decide

/-- Characters beyond ASCII are stray. -/
lemma strayChar_of_lt (h : 0x7F < c.toNat) : StrayChar c := by
  have hlow d (hd : d ∈ symbolText.toList ++ otherStarts) : d.toNat ≤ 0x7F :=
    of_decide_eq_true (List.all_eq_true.1 low_eq d hd)
  refine ⟨fun hc => ?_, ?_, fun hc => ?_⟩
  · exact Nat.not_le_of_lt h (hlow c (List.mem_append_left _ hc))
  · rw [Bool.eq_false_iff]
    exact fun hc => Nat.not_le_of_lt h (toNat_le_of_isAlphanum hc)
  · exact Nat.not_le_of_lt h (hlow c (List.mem_append_right _ hc))

/-- Bytes beyond ASCII are stray. -/
lemma stray_of_lt (h : 0x7F < b.toNat) : Stray b := by
  have hword (hw : IsLetter b ∨ IsDigit b) : False :=
    Nat.not_le_of_lt h (le_of_isWordByte (isWordByte_iff.2 hw))
  refine ⟨fun hb => Nat.not_le_of_lt h hb.ascii, fun hb => hword (.inl hb),
    fun hb => hword (.inr hb), ?_, fun d _ he => ?_⟩
  · rintro rfl
    exact absurd h (by decide)
  · exact Nat.not_le_of_lt h ((form_of_eq he).le_iff_eq_nil.2 rfl)

/-- Whether a character starts a token is told by its first byte. -/
lemma stray_iff (he : String.utf8EncodeChar c = b :: bs) : Stray b ↔ StrayChar c := by
  have hf := form_of_eq he
  by_cases hb : b.toNat ≤ 0x7F
  · obtain rfl := hf.le_iff_eq_nil.1 hb
    have hs : (∀ d ∈ symbolText.toList, String.utf8EncodeChar d ≠ [b]) ↔
        c ∉ symbolText.toList := by
      constructor
      · exact fun h hm => h c hm he
      · intro hm d hd hdb
        obtain ⟨rfl, -⟩ := utf8EncodeChar_append_inj (congrArg (· ++ []) (hdb.trans he.symm))
        exact hm hd
    have hi := not_congr (starts_iff hb (hf.eq_of_le hb))
    simp only [not_or, and_assoc, Bool.not_eq_true] at hi
    rw [Stray, StrayChar, hs, ← hi]
    exact ⟨fun ⟨h1, h2, h3, h4, h5⟩ => ⟨h5, h1, h2, h3, h4⟩,
      fun ⟨h5, h1, h2, h3, h4⟩ => ⟨h1, h2, h3, h4, h5⟩⟩
  · have hc : 0x7F < c.toNat := Nat.lt_of_not_le (mt hf.le_iff.2 hb)
    exact iff_of_true (stray_of_lt (Nat.lt_of_not_le hb)) (strayChar_of_lt hc)

/-! ### Tokens and their first characters -/

/-- A token that starts with a byte that starts none is a character, or a byte that starts no
character. -/
lemma Spells.of_stray (h : Spells (b :: bs) rest k) (hb : Stray b) :
    (∃ d, b :: bs = String.utf8EncodeChar d ∧ k = .error (.unexpectedCharacter d)) ∨
      ∀ d, ¬ String.utf8EncodeChar d <+: b :: bs ++ rest := by
  generalize e : b :: bs = w at h
  cases h with
  | keyword hw _ _ | identifier hw _ _ =>
    obtain ⟨⟨x, r, rfl, hx, -⟩, -⟩ := hw
    cases e
    exact absurd hx hb.2.1
  | @symbol d _ hd _ =>
    obtain ⟨x, hx, -⟩ := symbol_byte (symbols_eq ▸ hd)
    rw [hx] at e
    cases e
    exact absurd hx (hb.2.2.2.2 d hd)
  | integer hd _ | overflow hd _ =>
    subst e
    exact absurd (hd.2.1 b List.mem_cons_self) hb.2.2.1
  | string _ _ | openString _ _ =>
    cases e
    exact absurd rfl hb.2.2.2.1
  | openComment _ =>
    cases e
    exact absurd (by decide) (hb.2.2.2.2 '/' (by decide))
  | @character _ _ _ d _ hd => exact .inl ⟨d, hd, rfl⟩
  | byte _ hn => exact .inr hn

/-- Only bytes that start no token are reported as a character. -/
lemma Spells.stray (h : Spells (b :: bs) rest (.error (.unexpectedCharacter d))) : Stray b := by
  generalize e : b :: bs = w at h
  cases h with
  | character hb _ | byte hb _ =>
    cases e
    exact hb

end

/-! ### Texts -/

/-- Only the empty text has no bytes. -/
lemma Text.Utf8.encode_eq_nil_iff {cs : List Char} : encode cs = [] ↔ cs = [] := by
  cases cs with
  | nil => exact iff_of_true rfl rfl
  | cons c cs =>
    rw [encode_cons, List.append_eq_nil_iff]
    exact iff_of_false (fun h => String.utf8EncodeChar_ne_nil h.1) nofun

/-- The lexeme of a reported character is that character. -/
lemma Token.SpelledAs.eq_toString {t : Token} {c : Char} (h : t.SpelledAs (encode [c]))
    (hk : t.kind = .error (.unexpectedCharacter c)) : t.lexeme = c.toString := by
  rw [SpelledAs, if_neg fun hs => by cases hk.symm.trans hs] at h
  have hl : t.lexeme.toList = [c] := h.unique (Decoded.nil.char c)
  exact String.toList_inj.1 (by simpa using hl)

/-- The tokens of a text cut it between its characters. -/
lemma Cut.textCut {n : Nat} {bs : List UInt8} {ts : List Token} (h : Cut n bs ts)
    {cs : List Char} (hcs : encode cs = bs) : TextCut n cs ts := by
  induction h generalizing cs with
  | eof hg hk _ hstart hstop =>
    subst hcs
    exact .eof hg hk hstart hstop
  | @token n g w rest t ts hg hw hl hstart hstop _ ih =>
    rw [List.append_assoc] at hcs
    have htext := hg.isText ⟨cs, hcs⟩
    obtain ⟨cg, cw, rfl, rfl, hcw⟩ := exists_split hcs htext.unbroken
    obtain ⟨cw, rest, rfl, rfl, rfl⟩ := exists_split hcw (hw.isText htext).unbroken
    cases cw with
    | nil => exact absurd rfl hw.ne_nil
    | cons c cw =>
      rw [← hcw] at hg
      obtain ⟨b, bs, he, -⟩ := exists_form_utf8EncodeChar c
      have hb := stray_iff he
      have hfirst : encode (c :: cw) = b :: (bs ++ encode cw) := by
        rw [encode_cons, he, List.cons_append]
      by_cases hc : StrayChar c
      · have hw' := hw
        rw [hfirst] at hw'
        obtain ⟨d, hd, hk⟩ | hn := hw'.of_stray (hb.2 hc)
        · -- The bytes of the token are those of one character, so it has no other one.
          have hcd : String.utf8EncodeChar c ++ encode cw = String.utf8EncodeChar d ++ [] := by
            rw [List.append_nil, ← hd, he, List.cons_append]
          obtain ⟨rfl, hnil⟩ := utf8EncodeChar_append_inj hcd
          obtain rfl := encode_eq_nil_iff.1 hnil
          exact .stray hg hc hk (hl.eq_toString hk) hstart hstop (ih rfl)
        · refine absurd ⟨encode cw ++ encode rest, ?_⟩ (hn c)
          rw [he, List.cons_append, List.cons_append, List.append_assoc]
      · refine .token hg hc hw (fun d hd => ?_) hstart hstop (ih rfl)
        rw [hfirst, hd] at hw
        exact hc (hb.1 hw.stray)

/-! ### Recovery -/

namespace Window

variable {w : Window}

/-- A character whose encoding is left in front is found, and passed as a whole. -/
lemma nextChar?_of_prefix {c : Char} (h : String.utf8EncodeChar c <+: w.rest) :
    ∃ after, w.nextChar? = some (c, after) ∧ w.Passes (String.utf8EncodeChar c) after := by
  obtain ⟨more, hm⟩ := h
  obtain ⟨b, bs, he, -⟩ := exists_form_utf8EncodeChar c
  have hr : w.rest = b :: (bs ++ more) := by rw [← hm, he, List.cons_append]
  obtain ⟨d, after, hd, hp⟩ | ⟨-, hn⟩ := nextChar?_cases hr
  · obtain ⟨rfl, -⟩ := utf8EncodeChar_append_inj (hm.trans hp.rest_eq)
    exact ⟨after, hd, hp⟩
  · exact absurd ⟨more, hm⟩ (hn c)

/-- Where no character is left in front, one byte is passed. -/
lemma nextChar?_of_not_prefix {b : UInt8} {r : List UInt8} (hr : w.rest = b :: r)
    (hn : ∀ c, ¬ String.utf8EncodeChar c <+: w.rest) :
    w.nextChar? = some (replacement, w.advance) ∧ w.Passes [b] w.advance := by
  obtain ⟨d, after, -, hp⟩ | ⟨hd, -⟩ := nextChar?_cases hr
  · exact absurd ⟨after.rest, hp.rest_eq.symm⟩ (hn d)
  · exact ⟨hd, passes_advance hr⟩

end Window

/-- The character in front is the one whose encoding is left there, passed as a whole, and where
there is none it is U+FFFD for one byte. So the tokens of a text cut it between its characters: each
character that starts no token is one error token with that character, and no token starts or ends
inside a character. -/
theorem characters_recovered_exactly :
    (∀ (w : Window) (c : Char), String.utf8EncodeChar c <+: w.rest →
      ∃ after, w.nextChar? = some (c, after) ∧ w.Passes (String.utf8EncodeChar c) after) ∧
    (∀ (w : Window) (b : UInt8) (r : List UInt8), w.rest = b :: r →
      (∀ c, ¬ String.utf8EncodeChar c <+: w.rest) →
      w.nextChar? = some ('\uFFFD', w.advance) ∧ w.Passes [b] w.advance) ∧
    ∀ source : String, TextCut 0 source.toList (tokensOf source) ∧
      ∀ t ∈ tokensOf source, Boundary source.toList t.span.start.offset ∧
        Boundary source.toList t.span.stop.offset := by
  refine ⟨fun w c => Window.nextChar?_of_prefix, fun w b r => Window.nextChar?_of_not_prefix,
    fun source => ⟨?_, fun t => boundary_of_mem_tokensOf⟩⟩
  exact (cut_tokensOfBytes (bytes source)).textCut rfl

/-- A character of three bytes is read to the end of a source that fails right behind it; cut off,
it is given up byte by byte, as are an overlong form, a surrogate and a value above U+10FFFF. -/
theorem characters_recovered_exactly_cut_off :
    (∃ after, (Window.ofSource ⟨bytes "€", .failed⟩).nextChar? = some ('€', after) ∧
      after.rest = []) ∧
    ∀ bs ∈ [[0xE2, 0x82], [0xC0, 0x80], [0xED, 0xA0, 0x80], [0xF4, 0x90, 0x80, 0x80]],
      (Window.ofSource ⟨bs, .failed⟩).nextChar? =
        some ('\uFFFD', (Window.ofSource ⟨bs, .failed⟩).advance) := by
  have hcut {b : UInt8} {r : List UInt8} (hb : firstChar? b r = none) :
      (Window.ofSource ⟨b :: r, .failed⟩).nextChar? =
        some ('\uFFFD', (Window.ofSource ⟨b :: r, .failed⟩).advance) := by
    have hr := Window.rest_ofSource ⟨b :: r, .failed⟩
    refine (characters_recovered_exactly.2.1 _ b r hr fun c hp => ?_).1
    rw [hr, ← firstChar?_eq_some_iff, hb] at hp
    cases hp
  constructor
  · have hr : (Window.ofSource ⟨bytes "€", .failed⟩).rest = String.utf8EncodeChar '€' ++ [] :=
      (Window.rest_ofSource ⟨bytes "€", .failed⟩).trans (by decide +kernel)
    obtain ⟨after, hc, hp⟩ := characters_recovered_exactly.1 _ '€' ⟨[], hr.symm⟩
    exact ⟨after, hc, hp.rest_of_eq hr⟩
  · simp only [List.forall_mem_cons]
    exact ⟨hcut (by decide +kernel), hcut (by decide +kernel), hcut (by decide +kernel),
      hcut (by decide +kernel), nofun⟩

end Jack
