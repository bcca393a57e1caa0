import Jack.Proofs.Text.Lines
import Jack.Proofs.Token.Tokenization

/-!
# Tokens stand between characters

The bytes of a text can be cut before every byte that continues no character (`exists_split`). A
byte that continues one never stands behind trivia or a token: these end with a byte below 128 or
with a whole character, or a byte below 128 follows. So what is left of a text behind a token is a
text again, and no token of a text starts or ends inside a character (`boundary_of_mem_tokensOf`).
-/

namespace Jack

namespace Text.Utf8

/-! ## Cutting texts -/

/-- The bytes of a text. -/
def IsText (bs : List UInt8) : Prop := ∃ cs, encode cs = bs

/-- No character goes on with these bytes. -/
def Unbroken (bs : List UInt8) : Prop := ∀ b ∈ bs.head?, ¬ Tail b

/-- What is left of the bytes at an offset is a text. -/
def TextFrom (bs : List UInt8) (n : Nat) : Prop := ∃ p q, bs = p ++ q ∧ p.length = n ∧ IsText q

/-- So many bytes of a text make up whole characters. -/
def Boundary (cs : List Char) (n : Nat) : Prop :=
  ∃ front back, cs = front ++ back ∧ (encode front).length = n

variable {b : UInt8} {p q w bs : List UInt8} {cs : List Char}

/-- An ASCII byte is no tail byte. -/
lemma not_tail_of_le (h : b.toNat ≤ 0x7F) : ¬ Tail b := by
  unfold Tail
  omega

/-- A lead is no tail byte. -/
lemma Form.not_tail {v : Nat} (h : Form b bs v) : ¬ Tail b := by
  unfold Tail
  cases h <;> omega

/-- The bytes of the first character come first. -/
lemma encode_cons (c : Char) (cs : List Char) :
    encode (c :: cs) = String.utf8EncodeChar c ++ encode cs := List.flatMap_cons

/-- A text that is cut before a byte that continues no character is cut between two characters. -/
lemma exists_split (h : encode cs = p ++ q) (hq : Unbroken q) :
    ∃ front back, cs = front ++ back ∧ encode front = p ∧ encode back = q := by
  induction cs generalizing p with
  | nil =>
    obtain ⟨rfl, rfl⟩ := List.append_eq_nil_iff.1 h.symm
    exact ⟨[], [], rfl, rfl, rfl⟩
  | cons c cs ih =>
    obtain ⟨b, bs, hc, hf⟩ := exists_form_utf8EncodeChar c
    cases p with
    | nil => exact ⟨[], c :: cs, rfl, rfl, h⟩
    | cons d p =>
      rw [encode_cons, hc, List.cons_append, List.cons_append, List.cons.injEq] at h
      obtain ⟨rfl, h⟩ := h
      obtain ⟨more, rfl, hmore⟩ | ⟨more, rfl, rfl⟩ := List.append_eq_append_iff.1 h
      · obtain ⟨front, back, rfl, rfl, hback⟩ := ih hmore
        exact ⟨c :: front, back, rfl, by rw [encode_cons, hc, List.cons_append], hback⟩
      · cases more with
        | nil => exact ⟨[c], cs, rfl, by simp [hc, encode], rfl⟩
        | cons x more =>
          -- The cut would be inside the first character.
          have hx : x ∈ p ++ x :: more := List.mem_append_right p List.mem_cons_self
          exact absurd (hf.tail_of_mem hx) (hq x rfl)

namespace IsText

/-- The empty text has no bytes. -/
lemma nil : IsText [] := ⟨[], rfl⟩

/-- A text does not start inside a character. -/
lemma unbroken (h : IsText bs) : Unbroken bs := by
  obtain ⟨_ | ⟨c, cs⟩, rfl⟩ := h
  · nofun
  · obtain ⟨b, more, hc, hf⟩ := exists_form_utf8EncodeChar c
    rw [encode_cons, hc]
    rintro d ⟨⟩
    exact hf.not_tail

/-- What follows in a text is a text, where it does not start inside a character. -/
lemma of_append (h : IsText (p ++ q)) (hq : Unbroken q) : IsText q := by
  obtain ⟨cs, hcs⟩ := h
  obtain ⟨-, back, -, -, hback⟩ := exists_split hcs hq
  exact ⟨back, hback⟩

/-- A text behind bytes is cut off before a byte below 128. -/
lemma of_append_cons (h : IsText (p ++ b :: q)) (hb : b.toNat ≤ 0x7F) : IsText (b :: q) := by
  refine h.of_append ?_
  rintro d ⟨⟩
  exact not_tail_of_le hb

/-- What follows a character in a text is a text. -/
lemma of_char_append {c : Char} (h : IsText (String.utf8EncodeChar c ++ bs)) : IsText bs := by
  obtain ⟨_ | ⟨d, ds⟩, hds⟩ := h
  · exact absurd (List.append_eq_nil_iff.1 hds.symm).1 String.utf8EncodeChar_ne_nil
  · rw [encode_cons] at hds
    exact ⟨ds, (utf8EncodeChar_append_inj hds).2⟩

/-- What follows an ASCII byte in a text is a text. -/
lemma of_cons (h : IsText (b :: bs)) (hb : b.toNat ≤ 0x7F) : IsText bs := by
  rw [← List.singleton_append, ← utf8EncodeChar_ofUInt8 hb] at h
  exact h.of_char_append

/-- What follows ASCII bytes in a text is a text. -/
lemma of_ascii_append (h : IsText (w ++ bs)) (hw : ∀ b ∈ w, b.toNat ≤ 0x7F) : IsText bs := by
  induction w with
  | nil => exact h
  | cons b w ih =>
    obtain ⟨hb, hw⟩ := List.forall_mem_cons.1 hw
    exact ih (of_cons h hb) hw

/-- A text starts with a character, unless it is empty. -/
lemma exists_char (h : IsText (b :: bs)) : ∃ c, String.utf8EncodeChar c <+: b :: bs := by
  obtain ⟨_ | ⟨c, cs⟩, hcs⟩ := h
  · cases hcs
  · exact ⟨c, encode cs, hcs⟩

end IsText

/-- What stands before a text is a text. -/
lemma TextFrom.boundary {n : Nat} (h : TextFrom (encode cs) n) : Boundary cs n := by
  obtain ⟨p, q, hcs, rfl, hq⟩ := h
  obtain ⟨front, back, rfl, rfl, -⟩ := exists_split hcs hq.unbroken
  exact ⟨front, back, rfl, rfl⟩

end Text.Utf8

open Text.Utf8

/-! ## Trivia and tokens -/

/-- Blanks are ASCII bytes. -/
lemma IsSpace.ascii {b : UInt8} (h : IsSpace b) : b.toNat ≤ 0x7F := by
  simp only [IsSpace, List.mem_cons, List.not_mem_nil, or_false, ← UInt8.toNat_inj,
    UInt8.reduceToNat] at h
  omega

/-- Behind the trivia in front of a text there is a text. -/
lemma Trivia.isText {g rest : List UInt8} (h : Trivia g rest) (ht : IsText (g ++ rest)) :
    IsText rest := by
  induction h with
  | nil => exact ht
  | space hb _ ih => exact ih (ht.of_cons hb.ascii)
  | @line body g rest _ hend _ ih =>
    have hbody : IsText (body ++ (g ++ rest)) := by
      simpa using (ht.of_cons (by decide)).of_cons (by decide)
    refine ih (hbody.of_append fun b hb => not_tail_of_le ?_)
    rw [hend b hb]
    decide
  | @block body g rest _ _ ih =>
    have hbody : IsText (body ++ 0x2A :: 0x2F :: (g ++ rest)) := by
      simpa using (ht.of_cons (by decide)).of_cons (by decide)
    exact ih (((hbody.of_append_cons (by decide)).of_cons (by decide)).of_cons (by decide))

/-- Words are made of ASCII bytes. -/
lemma WholeWord.ascii {w rest : List UInt8} (h : WholeWord w rest) : ∀ b ∈ w, b.toNat ≤ 0x7F := by
  obtain ⟨⟨b, bs, rfl, hb, hbs⟩, -⟩ := h
  have hword : ∀ d ∈ b :: bs, IsLetter d ∨ IsDigit d := List.forall_mem_cons.2 ⟨.inl hb, hbs⟩
  exact fun d hd => le_of_isWordByte (isWordByte_iff.2 (hword d hd))

/-- Numbers are made of ASCII bytes. -/
lemma Digits.ascii {w rest : List UInt8} (h : Digits w rest) : ∀ b ∈ w, b.toNat ≤ 0x7F :=
  fun b hb => le_of_isWordByte (isWordByte_iff.2 (.inr (h.2.1 b hb)))

/-- Behind the token in front of a text there is a text. -/
lemma Spells.isText {w rest : List UInt8} {k : TokenKind} (h : Spells w rest k)
    (ht : IsText (w ++ rest)) : IsText rest := by
  cases h with
  | keyword hw _ _ | identifier hw _ _ => exact ht.of_ascii_append hw.ascii
  | integer hd _ | overflow hd _ => exact ht.of_ascii_append hd.ascii
  | symbol _ _ => exact ht.of_char_append
  | @string body _ _ _ _ =>
    have hbody : IsText (body ++ 0x22 :: rest) := by simpa using ht.of_cons (by decide)
    exact (hbody.of_append_cons (by decide)).of_cons (by decide)
  | openString _ hend =>
    refine (ht.of_cons (by decide)).of_append fun b hb => not_tail_of_le ?_
    obtain rfl | rfl := hend b hb <;> decide
  | openComment _ => exact .nil
  | character _ hc =>
    rw [hc] at ht
    exact ht.of_char_append
  | byte _ hno =>
    obtain ⟨c, hc⟩ := ht.exists_char
    exact absurd hc (hno c)

/-- Each token of a text starts and ends where a text is left. -/
lemma Cut.textFrom {n : Nat} {bs : List UInt8} {ts : List Token} (h : Cut n bs ts)
    (before : List UInt8) (hn : before.length = n) (ht : IsText bs) :
    ∀ t ∈ ts, TextFrom (before ++ bs) t.span.start.offset ∧
      TextFrom (before ++ bs) t.span.stop.offset := by
  induction h generalizing before with
  | @eof n g t _ _ _ hstart hstop =>
    have hend : TextFrom (before ++ g) (n + g.length) :=
      ⟨before ++ g, [], (List.append_nil _).symm, by rw [List.length_append, hn], .nil⟩
    rw [List.forall_mem_singleton, hstart, hstop]
    exact ⟨hend, hend⟩
  | @token n g w rest t ts hg hw _ hstart hstop _ ih =>
    have hpast : (before ++ g ++ w).length = n + g.length + w.length := by
      rw [List.length_append, List.length_append, hn]
    rw [List.append_assoc] at ht
    -- Neither trivia nor a token ends inside a character.
    have hword := hg.isText ht
    have hrest := hw.isText hword
    have hafter := ih (before ++ g ++ w) hpast hrest
    simp only [List.append_assoc] at hafter ⊢
    refine List.forall_mem_cons.2 ⟨⟨?_, ?_⟩, hafter⟩
    · exact ⟨before ++ g, w ++ rest, by simp, by rw [hstart, List.length_append, hn], hword⟩
    · exact ⟨before ++ g ++ w, rest, by simp, by rw [hstop, hpast], hrest⟩

/-- No token of a text starts or ends inside a character. -/
lemma boundary_of_mem_tokensOf {source : String} {t : Token} (ht : t ∈ tokensOf source) :
    Boundary source.toList t.span.start.offset ∧ Boundary source.toList t.span.stop.offset := by
  have hcut := cut_tokensOfBytes (bytes source)
  obtain ⟨hstart, hstop⟩ := hcut.textFrom [] rfl ⟨source.toList, rfl⟩ t ht
  exact ⟨hstart.boundary, hstop.boundary⟩

end Jack
