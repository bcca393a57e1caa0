import Jack.Proofs.Token.Positions
import Jack.Proofs.Token.Unambiguous
import Mathlib.Data.List.Forall2

/-!
# Sources joined at a line feed

A source has one cut into trivia and tokens only, so whoever finds a cut has found its tokens
(`tokensOfBytes_eq_of_cut`). No token and no trivia but an open comment looks behind a line feed. So
the cuts of two sources join to a cut of both with a line feed between them: the tokens of the
second source are the same there, in lines further down.
-/

namespace Jack

/-! ### One cut for each source -/

section
variable {g g' w w' rest rest' : List UInt8} {k k' : TokenKind}

/-- Trivia and a token stand in front of a source in one way only. -/
lemma Spells.split_unique (hg : Trivia g (w ++ rest)) (hs : Spells w rest k)
    (hg' : Trivia g' (w' ++ rest')) (hs' : Spells w' rest' k')
    (h : g ++ (w ++ rest) = g' ++ (w' ++ rest')) : g = g' ∧ w = w' ∧ rest = rest' ∧ k = k' := by
  have hv := Window.rest_ofSource ⟨g ++ (w ++ rest), .finished⟩
  obtain ⟨hk, hr, hn⟩ := Window.scan_of_spells hg hs hv
  obtain ⟨hk', hr', hn'⟩ := Window.scan_of_spells hg' hs' (hv.trans h)
  obtain rfl : rest = rest' := hr.symm.trans hr'
  have hl : g.length = g'.length := by omega
  obtain ⟨rfl, hw⟩ := List.append_inj h hl
  exact ⟨rfl, List.append_cancel_right hw, rfl, hk.symm.trans hk'⟩

/-- Where a token stands behind trivia, there is not only trivia. -/
lemma Spells.not_trivia (hg : Trivia g (w ++ rest)) (hs : Spells w rest k) :
    ¬ Trivia (g ++ (w ++ rest)) [] := by
  intro ht
  have hv := Window.rest_ofSource ⟨g ++ (w ++ rest), .finished⟩
  have hk := (Window.scan_of_spells hg hs hv).1
  rw [Window.scan_of_trivia ht hv] at hk
  exact hs.kind_ne_eof hk.symm

end

/-- Two tokens of one kind and spelling have the same lexeme. -/
lemma Token.SpelledAs.lexeme_eq {t u : Token} {w : List UInt8} (ht : t.SpelledAs w)
    (hu : u.SpelledAs w) (hk : t.kind = u.kind) : t.lexeme = u.lexeme := by
  unfold SpelledAs at ht hu
  rw [hk] at ht
  split at ht
  · next hc =>
    rw [if_pos hc] at hu
    exact ht.trans hu.symm
  · next hc =>
    rw [if_neg hc] at hu
    exact String.toList_inj.1 (ht.unique hu)

/-- Two tokens are the same but for lines and columns. -/
structure Token.SameAt (t u : Token) : Prop where
  kind : t.kind = u.kind
  lexeme : t.lexeme = u.lexeme
  start : t.span.start.offset = u.span.start.offset
  stop : t.span.stop.offset = u.span.stop.offset

/-- There is one cut only, up to lines and columns. -/
lemma Cut.unique {n : Nat} {bs : List UInt8} {ts us : List Token} (h : Cut n bs ts)
    (h' : Cut n bs us) : List.Forall₂ Token.SameAt ts us := by
  induction h generalizing us with
  | @eof n g t hg hk hl hs he =>
    generalize hx : g = x at h'
    cases h' with
    | @eof _ _ u _ hk' hl' hs' he' =>
      subst hx
      exact .cons ⟨hk.trans hk'.symm, hl.trans hl'.symm, hs.trans hs'.symm, he.trans he'.symm⟩ .nil
    | @token _ g' w rest u us hg' hw' =>
      rw [hx, List.append_assoc] at hg
      exact absurd hg (hw'.not_trivia hg')
  | @token n g w rest t ts hg hw hl hs he _ ih =>
    generalize hx : g ++ w ++ rest = x at h'
    cases h' with
    | @eof _ _ u hg' =>
      rw [← hx, List.append_assoc] at hg'
      exact absurd hg' (hw.not_trivia hg)
    | @token _ g' w' rest' u us hg' hw' hl' hs' he' hc' =>
      -- Neither the trivia nor the token can be longer in one cut than in the other.
      rw [List.append_assoc, List.append_assoc] at hx
      obtain ⟨rfl, rfl, rfl, hk⟩ := hw.split_unique hg hg' hw' hx
      exact .cons ⟨hk, hl.lexeme_eq hl' hk, hs.trans hs'.symm, he.trans he'.symm⟩ (ih hc')

/-- Two positions in a source are told apart by their offsets. -/
lemma Pos.IsIn.eq_of_offset {p q : Pos} {source : List UInt8} (hp : p.IsIn source)
    (hq : q.IsIn source) (h : p.offset = q.offset) : p = q := by
  have hb : behind (source.take p.offset) = behind (source.take q.offset) := by rw [h]
  exact hp.trans (hb.trans hq.symm)

/-- Both ends of a token are positions of a source. -/
def Token.IsIn (t : Token) (source : List UInt8) : Prop :=
  t.span.start.IsIn source ∧ t.span.stop.IsIn source

/-- Offsets tell where in a source a token stands. -/
lemma Token.SameAt.eq {t u : Token} {source : List UInt8} (h : t.SameAt u) (ht : t.IsIn source)
    (hu : u.IsIn source) : t = u := by
  have hstart := ht.1.eq_of_offset hu.1 h.start
  have hstop := ht.2.eq_of_offset hu.2 h.stop
  obtain ⟨k, ⟨s, e⟩, l⟩ := t
  obtain ⟨k', ⟨s', e'⟩, l'⟩ := u
  cases h.kind
  cases h.lexeme
  cases hstart
  cases hstop
  rfl

/-- Tokens in a source that are the same at the same offsets are equal. -/
lemma eq_of_forall₂_sameAt {source : List UInt8} {ts us : List Token}
    (h : List.Forall₂ Token.SameAt ts us) (ht : ∀ t ∈ ts, t.IsIn source)
    (hu : ∀ u ∈ us, u.IsIn source) : ts = us := by
  induction h with
  | nil => rfl
  | cons h _ ih =>
    obtain ⟨ht, hts⟩ := List.forall_mem_cons.1 ht
    obtain ⟨hu, hus⟩ := List.forall_mem_cons.1 hu
    rw [h.eq ht hu, ih hts hus]

/-- The tokens of a source stand in it. -/
lemma isIn_of_mem_tokensOfBytes (source : List UInt8) :
    ∀ t ∈ tokensOfBytes source, t.IsIn source :=
  (positioned_tokensOfBytes source).isIn

/-- Tokens that cut a source, each at positions of the source, are the tokens of the source. -/
theorem tokensOfBytes_eq_of_cut {source : List UInt8} {ts : List Token} (h : Cut 0 source ts)
    (hp : ∀ t ∈ ts, t.IsIn source) : tokensOfBytes source = ts :=
  eq_of_forall₂_sameAt ((cut_tokensOfBytes source).unique h) (isIn_of_mem_tokensOfBytes source) hp

/-! ### What stands behind a line feed -/

section
variable {g g' w rest more : List UInt8} {k : TokenKind}

/-- What holds of the next byte, and of a byte put behind, holds of the next byte of both. -/
lemma forall_head?_append_cons {P : UInt8 → Prop} {b : UInt8} (h : ∀ d ∈ rest.head?, P d)
    (hb : P b) : ∀ d ∈ (rest ++ b :: more).head?, P d := by
  cases rest with
  | nil =>
    rintro d ⟨⟩
    exact hb
  | cons c rest => exact h

/-- A line feed goes on with no word. -/
lemma not_word_newline : ¬ (IsLetter 0x0A ∨ IsDigit 0x0A) := by
  unfold IsLetter IsDigit
  decide

/-- A word is whole with a line feed and more behind. -/
lemma WholeWord.append_newline (h : WholeWord w rest) : WholeWord w (rest ++ 0x0A :: more) :=
  ⟨h.1, forall_head?_append_cons h.2 not_word_newline⟩

/-- A number is whole with a line feed and more behind. -/
lemma Digits.append_newline (h : Digits w rest) : Digits w (rest ++ 0x0A :: more) :=
  ⟨h.1, h.2.1, forall_head?_append_cons h.2.2 (not_or.1 not_word_newline).2⟩

/-- Trivia ends before a line feed as it ends before the end. -/
lemma Trivia.append_newline (h : Trivia g rest) : Trivia g (rest ++ 0x0A :: more) := by
  induction h with
  | nil => exact .nil
  | space hb _ ih => exact .space hb ih
  | @line body g rest hb hl _ ih =>
    refine .line hb ?_ ih
    rw [← List.append_assoc]
    exact forall_head?_append_cons hl rfl
  | block hb _ ih => exact .block hb ih

/-- Trivia and more trivia behind it. -/
lemma Trivia.append (h : Trivia g (g' ++ rest)) (h' : Trivia g' rest) : Trivia (g ++ g') rest := by
  generalize hx : g' ++ rest = x at h
  induction h with
  | nil => exact h'
  | space hb _ ih => exact .space hb (ih hx)
  | @line body g x hb hl _ ih =>
    have hl' : ∀ b ∈ (g ++ g' ++ rest).head?, b = 0x0A := by
      rw [List.append_assoc, hx]
      exact hl
    have ht := Trivia.line hb hl' (ih hx)
    rwa [← List.append_assoc] at ht
  | @block body g x hb _ ih =>
    have ht := Trivia.block hb (ih hx)
    rwa [← List.append_assoc] at ht

/-- The encoding of a character has a line feed at most as its first byte. -/
lemma newline_not_mem_tail {c : Char} {b : UInt8} {bs : List UInt8}
    (h : String.utf8EncodeChar c = b :: bs) : 0x0A ∉ bs := by
  intro hm
  obtain ⟨x, xs, he, hf⟩ := Text.Utf8.exists_form_utf8EncodeChar c
  obtain ⟨rfl, rfl⟩ := List.cons.inj (he.symm.trans h)
  exact absurd (hf.tail_of_mem hm).1 (by decide)

/-- A line feed completes no character. -/
lemma not_prefix_append_newline {b : UInt8} (h : ∀ c, ¬ String.utf8EncodeChar c <+: b :: rest)
    (c : Char) : ¬ String.utf8EncodeChar c <+: b :: (rest ++ 0x0A :: more) := by
  rintro ⟨tail, ht⟩
  rw [← List.cons_append, List.append_eq_append_iff] at ht
  obtain ⟨left, hc, -⟩ | ⟨after, hc, hafter⟩ := ht
  · exact h c ⟨left, hc.symm⟩
  · -- A character that is longer than the bytes before the line feed would have it inside.
    cases after with
    | nil => exact h c ⟨[], by rw [hc, List.append_nil, List.append_nil]⟩
    | cons x after =>
      obtain ⟨rfl, -⟩ := List.cons.inj hafter
      exact newline_not_mem_tail hc (by simp)

/-- A token ends before a line feed as it ends before the end, unless it is an open comment. -/
lemma Spells.append_newline (h : Spells w rest k) (hk : k ≠ .error .unterminatedComment) :
    Spells w (rest ++ 0x0A :: more) k := by
  cases h with
  | keyword hw hb hr => exact .keyword hw.append_newline hb hr
  | identifier hw hb hr => exact .identifier hw.append_newline hb hr
  | symbol hc hn =>
    exact .symbol hc fun he => forall_head?_append_cons (hn he) (by decide)
  | integer hd hv => exact .integer hd.append_newline hv
  | overflow hd hv => exact .overflow hd.append_newline hv
  | string hq hd => exact .string hq hd
  | openString hq hn => exact .openString hq (forall_head?_append_cons hn (.inl rfl))
  | openComment _ => exact absurd rfl hk
  | character hb hc => exact .character hb hc
  | byte hb hn => exact .byte hb (not_prefix_append_newline hn)

end

/-! ### Positions further down -/

/-- The position `k` bytes and `l` lines further on, in the same column. -/
def Pos.moved (k l : Nat) (p : Pos) : Pos := ⟨p.offset + k, p.line + l, p.column⟩

/-- The token `k` bytes and `l` lines further on, in the same columns. -/
def Token.moved (k l : Nat) (t : Token) : Token :=
  { t with span := ⟨t.span.start.moved k l, t.span.stop.moved k l⟩ }

namespace Pos

variable {p : Pos} {a b : List UInt8}

/-- Counting a byte and moving down can be done in either order. -/
lemma advance_moved (k l : Nat) (p : Pos) (b : UInt8) :
    (p.moved k l).advance b = (p.advance b).moved k l := by
  unfold advance
  split <;> simp [moved, Nat.add_right_comm]

/-- Counting bytes and moving down can be done in either order. -/
lemma foldl_advance_moved (k l : Nat) (bs : List UInt8) (p : Pos) :
    bs.foldl advance (p.moved k l) = (bs.foldl advance p).moved k l := by
  induction bs generalizing p with
  | nil => rfl
  | cons b bs ih => rw [List.foldl_cons, advance_moved, ih, List.foldl_cons]

/-- Behind a line feed, columns count as they do from the start of a source. -/
lemma behind_append_newline (a b : List UInt8) :
    behind (a ++ 0x0A :: b) = (behind b).moved (a.length + 1) (a.count 0x0A + 1) := by
  have ha : behind (a ++ [0x0A]) = (behind []).moved (a.length + 1) (a.count 0x0A + 1) := by
    rw [behind_concat]
    simp [advance, behind, moved, Nat.add_comm]
  have hb := behind_append [] b
  rw [List.nil_append] at hb
  rw [List.append_cons, behind_append, ha, foldl_advance_moved, hb]

/-- A position in a source is within its length. -/
lemma IsIn.offset_le (h : p.IsIn a) : p.offset ≤ a.length := by
  have hl : p.offset = (a.take p.offset).length := congrArg offset h
  rw [List.length_take] at hl
  omega

/-- A position in a source is one in a longer source. -/
lemma IsIn.append (h : p.IsIn a) (b : List UInt8) : p.IsIn (a ++ b) := by
  rw [IsIn, List.take_append_of_le_length h.offset_le]
  exact h

/-- A position in a source, moved down, is one in the source with lines in front. -/
lemma IsIn.moved (h : p.IsIn b) (a : List UInt8) :
    (p.moved (a.length + 1) (a.count 0x0A + 1)).IsIn (a ++ 0x0A :: b) := by
  have ht : (a ++ 0x0A :: b).take (p.offset + (a.length + 1)) = a ++ 0x0A :: b.take p.offset := by
    rw [Nat.add_comm, Nat.add_assoc, List.take_length_add_append, Nat.add_comm, List.take_succ_cons]
  have hp : behind (b.take p.offset) = p := h.symm
  show p.moved _ _ = behind ((a ++ 0x0A :: b).take (p.offset + (a.length + 1)))
  rw [ht, behind_append_newline, hp]

end Pos

/-! ### Joined cuts -/

namespace Cut

variable {n : Nat} {a b : List UInt8} {ts us : List Token}

/-- Tokens cut from a source, moved down, are cut from it further down. -/
lemma moved (k l : Nat) {m : Nat} (h : Cut n b ts) (hm : m = n + k) :
    Cut m b (ts.map (Token.moved k l)) := by
  induction h generalizing m with
  | eof hg hk hl hs he =>
    refine .eof hg hk hl ?_ ?_
    · simp only [Token.moved, Pos.moved]
      omega
    · simp only [Token.moved, Pos.moved]
      omega
  | token hg hw hl hs he _ ih =>
    refine .token hg hw hl ?_ ?_ (ih (by omega))
    · simp only [Token.moved, Pos.moved]
      omega
    · simp only [Token.moved, Pos.moved]
      omega

/-- More trivia in front of a cut. -/
lemma prepend {g : List UInt8} (hg : Trivia g b) (h : Cut (n + g.length) b ts) :
    Cut n (g ++ b) ts := by
  generalize hm : n + g.length = m at h
  cases h with
  | eof hg' hk hl hs he =>
    rw [← List.append_nil b] at hg
    refine .eof (hg.append hg') hk hl ?_ ?_
    · rw [hs, ← hm, List.length_append, Nat.add_assoc]
    · rw [he, ← hm, List.length_append, Nat.add_assoc]
  | @token _ g' w rest t ts hg' hw hl hs he hc =>
    rw [List.append_assoc] at hg
    have hlen : n + (g ++ g').length = m + g'.length := by
      rw [List.length_append]
      omega
    rw [← List.append_assoc, ← List.append_assoc]
    refine .token (hg.append hg') hw hl ?_ ?_ ?_
    · rw [hs, hlen]
    · rw [he, hlen]
    · rwa [hlen]

/-- A source is cut into at least one token. -/
lemma ne_nil (h : Cut n b ts) : ts ≠ [] := by
  cases h <;> exact List.cons_ne_nil _ _

/-- The cuts of two sources join to a cut of both with a line feed between them. -/
lemma append_newline (h : Cut n a ts) (hc : ∀ t ∈ ts, t.kind ≠ .error .unterminatedComment)
    (h' : Cut (n + (a.length + 1)) b us) : Cut n (a ++ 0x0A :: b) (ts.dropLast ++ us) := by
  induction h with
  | @eof n g t hg hk hl hs he =>
    -- The line feed is a blank, and goes with the trivia at the end to what stands before `b`.
    have hfeed : Trivia [0x0A] b := .space (by simp [IsSpace]) .nil
    have hg' : Trivia g ([0x0A] ++ b) := hg.append_newline
    rw [List.append_cons]
    exact prepend (hg'.append hfeed) (by rwa [List.length_append])
  | @token n g w rest t ts hg hw hl hs he hcut ih =>
    obtain ⟨ht, hts⟩ := List.forall_mem_cons.1 hc
    have hlen : n + ((g ++ w ++ rest).length + 1) =
        n + g.length + w.length + (rest.length + 1) := by
      simp only [List.length_append]
      omega
    rw [hlen] at h'
    rw [List.dropLast_cons_of_ne_nil hcut.ne_nil, List.append_assoc, List.cons_append]
    have hg' : Trivia g (w ++ (rest ++ 0x0A :: b)) := by
      rw [← List.append_assoc]
      exact hg.append_newline
    exact .token hg' (hw.append_newline ht) hl hs he (ih hts h')

end Cut

/-- The tokens that are handed out for two sources with a line feed between them, where the first
has no open comment: those of the first source without its end, then those of the second one, moved
by the bytes and the lines in front of it. -/
theorem tokens_append_newline (a b : List UInt8)
    (h : ∀ t ∈ tokensOfBytes a, t.kind ≠ .error .unterminatedComment) :
    (∀ source ∈ [a, b, a ++ 0x0A :: b],
      (Lexer.ofSource ⟨source, .finished⟩).Yields (tokensOfBytes source)) ∧
    ∃ ts last, tokensOfBytes a = ts ++ [last] ∧ last.kind = .eof ∧ (∀ t ∈ ts, t.kind ≠ .eof) ∧
      tokensOfBytes (a ++ 0x0A :: b) =
        ts ++ (tokensOfBytes b).map (Token.moved (a.length + 1) (a.count 0x0A + 1)) := by
  obtain ⟨ts, last, hts, hlast, -, hne⟩ := (positioned_tokensOfBytes a).exists_eof
  refine ⟨fun source _ => yields_tokensOfBytes source, ts, last, hts, hlast,
    fun t ht => (hne t ht).1, tokensOfBytes_eq_of_cut ?_ ?_⟩
  · have hb := (cut_tokensOfBytes b).moved (a.length + 1) (a.count 0x0A + 1) rfl
    have hc := (cut_tokensOfBytes a).append_newline h hb
    rwa [hts, List.dropLast_concat] at hc
  · refine List.forall_mem_append.2 ⟨?_, List.forall_mem_map.2 ?_⟩
    · intro t ht
      have hin := isIn_of_mem_tokensOfBytes a t (by rw [hts]; exact List.mem_append_left _ ht)
      exact ⟨hin.1.append _, hin.2.append _⟩
    · intro t ht
      have hin := isIn_of_mem_tokensOfBytes b t ht
      exact ⟨hin.1.moved a, hin.2.moved a⟩

/-- A slash and an unfinished character before the line feed, a star and the end of that character
behind it: neither a comment nor the character comes about. -/
theorem tokens_append_newline_cut_apart :
    (tokensOfBytes ([0x2F, 0xE2, 0x82] ++ 0x0A :: [0x2A, 0xAC])).map
        (fun t => (t.kind, t.span.start)) =
      [(.symbol '/', ⟨0, 1, 1⟩),
        (.error (.unexpectedCharacter Text.Utf8.replacement), ⟨1, 1, 2⟩),
        (.error (.unexpectedCharacter Text.Utf8.replacement), ⟨2, 1, 3⟩),
        (.symbol '*', ⟨4, 2, 1⟩),
        (.error (.unexpectedCharacter Text.Utf8.replacement), ⟨5, 2, 2⟩),
        (.eof, ⟨6, 2, 3⟩)] := by
  have ha : tokensOfBytes [0x2F, 0xE2, 0x82] =
      [⟨.symbol '/', ⟨⟨0, 1, 1⟩, ⟨1, 1, 2⟩⟩, "/"⟩,
        ⟨.error (.unexpectedCharacter Text.Utf8.replacement), ⟨⟨1, 1, 2⟩, ⟨2, 1, 3⟩⟩, "\uFFFD"⟩,
        ⟨.error (.unexpectedCharacter Text.Utf8.replacement), ⟨⟨2, 1, 3⟩, ⟨3, 1, 4⟩⟩, "\uFFFD"⟩,
        ⟨.eof, .point ⟨3, 1, 4⟩, ""⟩] := by
    decide +kernel
  have hb : (tokensOfBytes [0x2A, 0xAC]).map (fun t => (t.kind, (t.moved 4 1).span.start)) =
      [(.symbol '*', ⟨4, 2, 1⟩),
        (.error (.unexpectedCharacter Text.Utf8.replacement), ⟨5, 2, 2⟩), (.eof, ⟨6, 2, 3⟩)] := by
    decide +kernel
  obtain ⟨-, ts, last, hts, -, -, h⟩ :=
    tokens_append_newline [0x2F, 0xE2, 0x82] [0x2A, 0xAC] (by rw [ha]; decide)
  have hinit := congrArg List.dropLast (ha.symm.trans hts)
  rw [List.dropLast_concat] at hinit
  rw [h, ← hinit, List.map_append, List.map_map]
  exact congrArg (_ ++ ·) hb

end Jack
