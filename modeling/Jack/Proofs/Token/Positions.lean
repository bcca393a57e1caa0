import Jack.Proofs.Token.Tokenization

/-!
# Where tokens stand

A window moves its position on byte by byte, and so its position is always the one behind all bytes
passed so far: the line counts the line feeds among them, the column the bytes behind the last one.
The tokens of a source stand one behind another, each of them at its own bytes (`Positioned`).
-/

namespace Jack

/-- The position behind bytes at the start of a source. -/
def Pos.behind (bs : List UInt8) : Pos where
  offset := bs.length
  line := 1 + bs.count 0x0A
  column := 1 + (bs.reverse.takeWhile (· != 0x0A)).length

/-- A position of a source: line and column are those that its offset has there. -/
def Pos.IsIn (p : Pos) (source : List UInt8) : Prop := p = .behind (source.take p.offset)

namespace Pos

/-- The position behind one byte more. -/
lemma behind_concat (bs : List UInt8) (b : UInt8) :
    behind (bs ++ [b]) = (behind bs).advance b := by
  unfold advance
  split
  · next h =>
    subst h
    simp [behind, Nat.add_assoc]
  · next h => simp [behind, h, Nat.add_comm]

/-- The position behind bytes is reached by counting them. -/
lemma behind_append (bs cs : List UInt8) : behind (bs ++ cs) = cs.foldl advance (behind bs) := by
  induction cs generalizing bs with
  | nil => simp
  | cons c cs ih => rw [List.append_cons, ih, behind_concat, List.foldl_cons]

/-- The position behind the first part is in the source. -/
lemma isIn_behind (bs cs : List UInt8) : (behind bs).IsIn (bs ++ cs) := by
  rw [IsIn, behind, List.take_left]
  rfl

end Pos

/-- A window that has passed bytes stands behind them. -/
lemma Window.Passes.pos_behind {w v : Window} {bs cs : List UInt8} (h : w.Passes cs v)
    (hw : w.pos = .behind bs) : v.pos = .behind (bs ++ cs) := by
  rw [h.pos_eq, hw, Pos.behind_append]

/-- Tokens that stand one behind another in the second list of bytes, which follows the first. The
last of them is the end of the input. -/
inductive Positioned : List UInt8 → List UInt8 → List Token → Prop where
  | eof {before g t} :
    t.kind = .eof →
    t.span = .point (.behind (before ++ g)) →
    Positioned before g [t]
  | token {before g w rest t ts} :
    t.kind ≠ .eof →
    w ≠ [] →
    t.span = ⟨.behind (before ++ g), .behind (before ++ g ++ w)⟩ →
    Positioned (before ++ g ++ w) rest ts →
    Positioned before (g ++ w ++ rest) (t :: ts)

/-- No token is spelled as nothing. -/
lemma Spells.ne_nil {w rest k} (h : Spells w rest k) : w ≠ [] := by
  cases h with
  | keyword hw _ _ | identifier hw _ _ =>
    obtain ⟨⟨b, bs, rfl, -⟩, -⟩ := hw
    exact List.cons_ne_nil b bs
  | symbol _ _ => exact String.utf8EncodeChar_ne_nil
  | integer hd _ | overflow hd _ => exact hd.1
  | _ => exact List.cons_ne_nil _ _

/-- The tokens from a window on stand behind the bytes that it has passed. -/
lemma Window.tokensOnto_positioned (w : Window) (out : Array Token) {before : List UInt8}
    (h : w.pos = .behind before) :
    ∃ ts, (w.tokensOnto out).toList = out.toList ++ ts ∧ Positioned before w.rest ts := by
  fun_induction tokensOnto w out generalizing before with
  | case1 w out hk =>
    obtain ⟨g, hg, -, hr, he⟩ | ⟨g, bs, start, -, -, -, hs, -⟩ := scan_spec w
    · refine ⟨[w.scan.1], by simp, ?_⟩
      rw [hg.rest_eq, hr, List.append_nil]
      refine .eof hk ?_
      rw [he, hg.pos_behind h]
    · exact absurd hk hs.kind_ne_eof
  | case2 w out hk ih =>
    obtain ⟨g, -, -, -, he⟩ | ⟨g, bs, start, hg, hb, -, hs, -, hspan⟩ := scan_spec w
    · exact absurd (congrArg Token.kind he) hk
    · -- The token starts behind the trivia and stops behind its own bytes.
      have hstart := hg.pos_behind h
      have hstop := hb.pos_behind hstart
      obtain ⟨ts, hts, hp⟩ := ih hstop
      refine ⟨w.scan.1 :: ts, by simp [hts], ?_⟩
      rw [hg.rest_eq, hb.rest_eq, ← List.append_assoc]
      refine .token hk hs.ne_nil ?_ hp
      rw [hspan, hstart, hstop]

/-- The tokens of a source have their positions. -/
lemma positioned_tokensOfBytes (source : List UInt8) :
    Positioned [] source (tokensOfBytes source) := by
  have horigin : (Window.ofSource ⟨source, .finished⟩).pos = .behind [] := rfl
  obtain ⟨ts, hts, hp⟩ := Window.tokensOnto_positioned (.ofSource ⟨source, .finished⟩) #[] horigin
  rw [List.nil_append] at hts
  rw [Window.rest_ofSource] at hp
  rwa [tokensOfBytes, ByteSource.tokens, hts]

namespace Positioned

variable {before rest : List UInt8} {ts : List Token}

/-- The end of the input is the last token and no other one, and every other token takes bytes. -/
lemma exists_eof (h : Positioned before rest ts) :
    ∃ us t, ts = us ++ [t] ∧ t.kind = .eof ∧ t.span = .point (.behind (before ++ rest)) ∧
      ∀ u ∈ us, u.kind ≠ .eof ∧ u.span.start.offset < u.span.stop.offset := by
  induction h with
  | @eof _ _ t hk hs => exact ⟨[], t, rfl, hk, hs, nofun⟩
  | @token before g w rest t ts hk hw hs _ ih =>
    obtain ⟨us, u, rfl, hu, hspan, hus⟩ := ih
    refine ⟨t :: us, u, rfl, hu, ?_, List.forall_mem_cons.2 ⟨⟨hk, ?_⟩, hus⟩⟩
    · rw [hspan]
      simp only [List.append_assoc]
    · have hl := List.length_pos_iff.2 hw
      rw [hs]
      simp only [Pos.behind, List.length_append]
      omega

/-- Tokens start behind what stands before them. -/
lemma le_start (h : Positioned before rest ts) : ∀ t ∈ ts, before.length ≤ t.span.start.offset := by
  induction h with
  | eof _ hs =>
    rw [List.forall_mem_singleton, hs]
    simp [Span.point, Pos.behind]
  | token _ _ hs _ ih =>
    refine List.forall_mem_cons.2 ⟨?_, fun t ht => Nat.le_trans ?_ (ih t ht)⟩
    · rw [hs]
      simp [Pos.behind]
    · simp

/-- No token starts before the end of an earlier one. -/
lemma pairwise (h : Positioned before rest ts) :
    ts.Pairwise fun t u => t.span.stop.offset ≤ u.span.start.offset := by
  induction h with
  | eof _ _ => exact List.pairwise_singleton _ _
  | token _ _ hs hp ih =>
    refine List.pairwise_cons.2 ⟨?_, ih⟩
    rw [hs]
    exact hp.le_start

/-- Tokens start and end in the source. -/
lemma isIn (h : Positioned before rest ts) :
    ∀ t ∈ ts, t.span.start.IsIn (before ++ rest) ∧ t.span.stop.IsIn (before ++ rest) := by
  induction h with
  | @eof before g _ _ hs =>
    have hp := Pos.isIn_behind (before ++ g) []
    rw [List.append_nil] at hp
    rw [List.forall_mem_singleton, hs]
    exact ⟨hp, hp⟩
  | @token before g w rest t ts _ _ hs _ ih =>
    have hstart := Pos.isIn_behind (before ++ g) (w ++ rest)
    have hstop := Pos.isIn_behind (before ++ g ++ w) rest
    simp only [List.append_assoc] at hs hstart hstop ih ⊢
    refine List.forall_mem_cons.2 ⟨?_, ih⟩
    rw [hs]
    exact ⟨hstart, hstop⟩

end Positioned

/-- The end of the input is handed out once, last and behind all bytes. Every other token takes
bytes, starts where the one before has ended or later, and each position has the line and the column
of its offset. -/
theorem token_positions_exact (source : List UInt8) :
    (Lexer.ofSource ⟨source, .finished⟩).Yields (tokensOfBytes source) ∧
      (∃ ts t, tokensOfBytes source = ts ++ [t] ∧ t.kind = .eof ∧
        t.span = .point (.behind source) ∧
        ∀ u ∈ ts, u.kind ≠ .eof ∧ u.span.start.offset < u.span.stop.offset) ∧
      (tokensOfBytes source).Pairwise (fun t u => t.span.stop.offset ≤ u.span.start.offset) ∧
      ∀ t ∈ tokensOfBytes source, t.span.start.IsIn source ∧ t.span.stop.IsIn source := by
  have hp := positioned_tokensOfBytes source
  refine ⟨?_, hp.exists_eof, hp.pairwise, hp.isIn⟩
  obtain ⟨ts, hts, hy, -⟩ := Window.tokensOnto_spec (.ofSource ⟨source, .finished⟩) #[]
  rw [List.nil_append] at hts
  rwa [tokensOfBytes, ByteSource.tokens, hts]

end Jack
