import Jack.Proofs.Compile.Excerpt
import Jack.Proofs.Token.Boundaries

/-!
# The carets of a report

The last line of a report marks the span of the error. It is laid out with the column and the length
of the span, and these count bytes. So the spaces in front of the carets are as many as the bytes
before the span in its line, and the carets are as many as the bytes of the span: they stand below
the text of the span where all characters up to its end have one byte each, and nowhere else.
-/

namespace Jack

namespace Text

open Utf8

variable {text shown a b cs : List Char} {m n : Nat}

/-! ## Bytes and characters -/

/-- A text has at least as many bytes as characters. -/
lemma length_le_length_encode (cs : List Char) : cs.length ≤ (encode cs).length := by
  induction cs with
  | nil => exact Nat.le_refl 0
  | cons c cs ih =>
    have hc := c.utf8Size_pos
    rw [encode_cons, List.length_append, String.length_utf8EncodeChar, List.length_cons]
    omega

/-- A text has as many bytes as characters if all of them have one byte. -/
lemma length_encode_eq_iff : (encode cs).length = cs.length ↔ ∀ c ∈ cs, c.toNat ≤ 0x7F := by
  induction cs with
  | nil => simp [encode]
  | cons c cs ih =>
    have hc := c.utf8Size_pos
    have hcs := length_le_length_encode cs
    have hone : c.utf8Size = 1 ↔ c.toNat ≤ 0x7F := Char.utf8Size_eq_one_iff
    rw [encode_cons, List.length_append, String.length_utf8EncodeChar, List.length_cons,
      List.forall_mem_cons, ← ih, ← hone]
    omega

/-- Of two starts of a text the one with fewer bytes is a start of the other. -/
lemma prefix_of_length_encode_le (ha : a <+: text) (hb : b <+: text)
    (h : (encode a).length ≤ (encode b).length) : a <+: b := by
  obtain hab | ⟨more, rfl⟩ := List.prefix_or_prefix_of_prefix ha hb
  · exact hab
  · have hmore := length_le_length_encode more
    rw [encode_append, List.length_append] at h
    obtain rfl : more = [] := List.length_eq_zero_iff.1 (by omega)
    simp

/-- Two offsets between characters cut out a stretch of the text. -/
lemma exists_between (hm : Boundary text m) (hn : Boundary text n) (h : m ≤ n) :
    ∃ front mid back, text = front ++ mid ++ back ∧ (encode front).length = m ∧
      (encode (front ++ mid)).length = n := by
  obtain ⟨front, back, htext, rfl⟩ := hm
  obtain ⟨past, rest, htext', rfl⟩ := hn
  obtain ⟨mid, rfl⟩ := prefix_of_length_encode_le ⟨back, htext.symm⟩ ⟨rest, htext'.symm⟩ h
  exact ⟨front, mid, rest, htext', rfl, rfl⟩

/-- A line feed is one byte of the encoded text. -/
lemma mem_encode_newline (h : '\n' ∈ cs) : (0x0A : UInt8) ∈ encode cs :=
  List.mem_flatMap.2 ⟨'\n', h, by decide⟩

/-! ## Lines -/

/-- A text ends with a line feed, or is empty. -/
def LineStart (text : List Char) : Prop := text = [] ∨ text.getLast? = some '\n'

/-- The column behind a text counts the bytes of its last line. -/
lemma column_behind {before lead : List Char} (hb : LineStart before) (hl : '\n' ∉ lead) :
    (Pos.behind (encode (before ++ lead))).column = 1 + (encode lead).length := by
  have hlead : ∀ x ∈ (encode lead).reverse, (x != 0x0A) = true := by
    intro x hx
    have hcount := count_encode hl (encode lead).length
    rw [List.take_length, List.count_eq_zero] at hcount
    refine bne_iff_ne.2 ?_
    rintro rfl
    exact hcount (List.mem_reverse.1 hx)
  have hbefore : (encode before).reverse.takeWhile (· != 0x0A) = [] := by
    obtain rfl | hlast := hb
    · rfl
    · obtain ⟨front, rfl⟩ := List.getLast?_eq_some_iff.1 hlast
      rw [encode_append, List.reverse_append]
      rfl
  rw [Pos.behind, encode_append, List.reverse_append, List.takeWhile_append_of_pos hlead, hbefore,
    List.append_nil, List.length_reverse]

/-- What stands before an offset in the line around it is shown, unless the offset is the one of the
line feed that ends the line. -/
lemma LineAround.exists_lead {front back : List Char}
    (h : LineAround text (encode front).length shown) (htext : text = front ++ back) :
    ∃ before lead, front = before ++ lead ∧ LineStart before ∧ '\n' ∉ lead ∧
      (lead <+: shown ∨ back.head? = some '\n') := by
  obtain ⟨before, line, after, hsplit, hbefore, hline, hlow, hhigh, hshown⟩ := h
  have hfront : front <+: text := ⟨back, htext.symm⟩
  have hthrough : before ++ line <+: text := ⟨after, hsplit.symm⟩
  obtain ⟨lead, rfl⟩ :=
    prefix_of_length_encode_le ((List.prefix_append before line).trans hthrough) hfront hlow
  have hlead : lead <+: line :=
    (List.prefix_append_right_inj before).1 (prefix_of_length_encode_le hfront hthrough hhigh)
  refine ⟨before, lead, rfl, hbefore, fun hm => hline (hlead.subset hm), ?_⟩
  cases hshown with
  | last => exact .inl hlead
  | feed _ => exact .inl hlead
  | @returnFeed shown after =>
    -- The carriage return is not shown, but only a line feed can follow it here.
    obtain rfl | hlead := List.prefix_concat_iff.1 hlead
    · rw [← List.append_cancel_left (hsplit.symm.trans htext)]
      exact .inr rfl
    · exact .inl hlead

/-- How the line that is shown for a span splits there: what stands before the span in its line, and
what the span covers. -/
def SplitAt (text shown : List Char) (span : Span) (lead marked : List Char) : Prop :=
  ∃ before after, text = before ++ lead ++ marked ++ after ∧ LineStart before ∧
    '\n' ∉ lead ++ marked ∧ lead <+: shown ∧
    (encode (before ++ lead)).length = span.start.offset ∧
    (encode (before ++ lead ++ marked)).length = span.stop.offset

end Text

open Text Text.Utf8

/-! ## Spans on one line -/

/-- A token has bytes, unless it stands behind all of them. -/
lemma offsets_of_mem_tokensOf {source : String} {t : Token} (ht : t ∈ tokensOf source) :
    t.span.start.offset < t.span.stop.offset ∨
      t.span.start.offset = t.span.stop.offset ∧ t.span.stop.offset = (bytes source).length := by
  obtain ⟨ts, eof, hts, -, hspan, hbytes⟩ := (positioned_tokensOf source).exists_eof
  rw [hts] at ht
  obtain ht | ht := List.mem_append.1 ht
  · exact .inl (hbytes t ht).2
  · rw [List.mem_singleton.1 ht, hspan]
    exact .inr ⟨rfl, rfl⟩

/-- The characters of a source around a span on one line. The column of the span and its length are
the numbers of their bytes. -/
lemma exists_splitAt {source : String} {t : Token} (ht : t ∈ tokensOf source)
    (hline : t.span.stop.line = t.span.start.line) :
    ∃ lead marked,
      SplitAt source.toList (lineAt t.span.start.line source.toList) t.span lead marked ∧
      t.span.start.column = 1 + (encode lead).length ∧ t.span.length = (encode marked).length := by
  have haround := lineAround_start ht
  obtain ⟨hstart, hstop⟩ := (positioned_tokensOf source).isIn t ht
  obtain ⟨hfrom, hto⟩ := boundary_of_mem_tokensOf ht
  have hoffsets := offsets_of_mem_tokensOf ht
  obtain ⟨front, marked, after, htext, hfront, hpast⟩ := exists_between hfrom hto (by omega)
  have hbytes : bytes source = encode front ++ encode (marked ++ after) := by
    rw [bytes, htext, List.append_assoc, encode_append]
  have hbytes' : bytes source = encode (front ++ marked) ++ encode after := by
    rw [bytes, htext, encode_append]
  rw [Pos.IsIn, List.nil_append, ← hfront, hbytes, List.take_left] at hstart
  rw [Pos.IsIn, List.nil_append, ← hpast, hbytes', List.take_left] at hstop
  -- The token stays on its line, so no line feed lies between its start and its stop.
  have hmarked : '\n' ∉ marked := by
    intro hm
    have hcount := List.count_pos_iff.2 (mem_encode_newline hm)
    rw [hstart, hstop] at hline
    simp only [Pos.behind, encode_append, List.count_append] at hline
    omega
  -- Only the end of the input is marked by nothing, and nothing comes behind it.
  have hend (hm : marked = []) : after = [] := by
    have hafter := length_le_length_encode after
    rw [hbytes', hm, List.append_nil, List.length_append] at hoffsets
    rw [hm, List.append_nil] at hpast
    exact List.length_eq_zero_iff.1 (by omega)
  have htext' : source.toList = front ++ (marked ++ after) := htext.trans (List.append_assoc _ _ _)
  rw [← hfront] at haround
  obtain ⟨before, lead, rfl, hbefore, hlead, hshown⟩ := haround.exists_lead htext'
  refine ⟨lead, marked, ⟨before, after, htext, hbefore, ?_, ?_, hfront, hpast⟩, ?_, ?_⟩
  · exact List.not_mem_append hlead hmarked
  · refine hshown.resolve_right fun hhead => ?_
    cases marked with
    | nil =>
      rw [hend rfl] at hhead
      cases hhead
    | cons c marked =>
      cases hhead
      exact hmarked List.mem_cons_self
  · rw [hstart, column_behind hbefore hlead]
  · rw [Span.length, ← hfront, ← hpast, encode_append, List.length_append, Nat.add_sub_cancel_left]

namespace CompileError

/-- A line with spaces and at least one caret behind the gutter of a report. -/
def caretLine (number : String) (spaces carets : Nat) : String :=
  repeated number.length ' ' ++ " | " ++ repeated spaces ' ' ++ repeated (max carets 1) '^'

/-- A line of carets shows its column and its width, where no width is taken for one. -/
lemma caretLine_inj {number : String} {a b c d : Nat} :
    caretLine number a b = caretLine number c d ↔ a = c ∧ max b 1 = max d 1 := by
  have hspaces (a b : Nat) :
      (caretLine number a b).toList.count ' ' = number.length + 2 + a := by
    simp [caretLine, repeated, List.count_replicate]
    omega
  have hcarets (a b : Nat) : (caretLine number a b).toList.count '^' = max b 1 := by
    simp [caretLine, repeated, List.count_replicate]
  constructor
  · intro h
    have hs := hspaces a b
    have hc := hcarets a b
    rw [h, hspaces] at hs
    rw [h, hcarets] at hc
    exact ⟨by omega, hc.symm⟩
  · rintro ⟨rfl, h⟩
    rw [caretLine, caretLine, h]

/-- Counting bytes and counting characters make the same line where all characters have one byte. -/
lemma caretLine_eq_iff {number : String} {lead marked : List Char} :
    caretLine number (encode lead).length (encode marked).length =
        caretLine number lead.length marked.length ↔
      ∀ c ∈ lead ++ marked, c.toNat ≤ 0x7F := by
  have hmax : max (encode marked).length 1 = max marked.length 1 ↔
      (encode marked).length = marked.length := by
    have hle := length_le_length_encode marked
    cases marked with
    | nil => simp [encode]
    | cons c marked =>
      rw [List.length_cons] at hle ⊢
      omega
  rw [caretLine_inj, hmax, length_encode_eq_iff, length_encode_eq_iff, List.forall_mem_append]

end CompileError

/-- The last line of the report of an error whose span starts and ends on one line has as many
spaces as there are bytes before the span in the line that is shown, and as many carets as the span
has bytes. These are the numbers of the characters there exactly where each has one byte. -/
theorem caret_line_counts_bytes (o : Options) (source : String) (err : CompileError)
    (h : Fails o source err) :
    ∃ span, err.span = some span ∧
      (span.stop.line = span.start.line →
        let number := span.start.line.repr
        ∃ shown lead marked front, Text.SplitAt source.toList shown span lead marked ∧
          Text.pieces (· == '\n') (err.report source).toList =
            front ++ [(number ++ " | ").toList ++ shown,
              (CompileError.caretLine number (encode lead).length (encode marked).length).toList] ∧
          (CompileError.caretLine number (encode lead).length (encode marked).length =
              CompileError.caretLine number lead.length marked.length ↔
            ∀ c ∈ lead ++ marked, c.toNat ≤ 0x7F)) := by
  obtain ⟨done, t, rest, hts, -, hspan, -⟩ := h.exists_blamed
  have ht : t ∈ tokensOf source := by
    rw [hts]
    exact List.mem_append_right done List.mem_cons_self
  refine ⟨t.span, hspan, fun hline => ?_⟩
  obtain ⟨lead, marked, hsplit, hcolumn, hlength⟩ := exists_splitAt ht hline
  obtain ⟨front, hreport⟩ := err.pieces_report hspan (lineAround_start ht).newline_not_mem
  refine ⟨_, lead, marked, front, hsplit, ?_, CompileError.caretLine_eq_iff⟩
  rw [hreport, markWidth, if_pos hline, hcolumn, hlength, Nat.add_sub_cancel_left]
  rfl

/-- Without characters of several bytes the carets stand below the span. -/
theorem caret_line_counts_bytes_ascii :
    let source := "class A\n  \x7b field int x, x; \x7d"
    let span : Span := ⟨⟨25, 2, 18⟩, ⟨26, 2, 19⟩⟩
    let number := span.start.line.repr
    ∃ err shown lead marked front, compileToVm {} source = .error err ∧ err.span = some span ∧
      span.stop.line = span.start.line ∧
      Text.SplitAt source.toList shown span lead marked ∧
      Text.pieces (· == '\n') (err.report source).toList =
        front ++ [(number ++ " | ").toList ++ shown,
          (CompileError.caretLine number lead.length marked.length).toList] := by
  intro source span number
  have herr : compileToVm {} source =
      .error ⟨.declaration (.duplicate "x" ⟨"int", .field, 0⟩), some span⟩ := by
    decide +kernel
  obtain ⟨_, ⟨⟩, hreport⟩ := caret_line_counts_bytes {} source _ (.toVm herr)
  obtain ⟨shown, lead, marked, front, hsplit, hpieces, hcounts⟩ := hreport rfl
  have hascii : ∀ c ∈ lead ++ marked, c.toNat ≤ 0x7F := by
    have hsource : source.toList.all (·.toNat ≤ 0x7F) = true := by decide +kernel
    obtain ⟨before, after, htext, -⟩ := hsplit
    intro c hc
    refine of_decide_eq_true (List.all_eq_true.1 hsource c ?_)
    rw [htext, List.append_assoc before]
    exact List.mem_append_left after (List.mem_append_right before hc)
  rw [hcounts.2 hascii] at hpieces
  exact ⟨_, shown, lead, marked, front, herr, rfl, rfl, hsplit, hpieces⟩

/-- Behind a comment with a character of two bytes the caret stands one place behind the span. -/
theorem caret_line_behind_accent :
    let source := "class A /* é */ B"
    let lead := "class A /* é */ ".toList
    let marked := ['B']
    ∃ err span, compileToVm {} source = .error err ∧ err.span = some span ∧
      span.stop.line = span.start.line ∧
      Text.SplitAt source.toList source.toList span lead marked ∧
      (Text.pieces (· == '\n') (err.report source).toList).getLast? ≠
        some (CompileError.caretLine span.start.line.repr lead.length marked.length).toList := by
  intro source lead marked
  let span : Span := ⟨⟨17, 1, 18⟩, ⟨18, 1, 19⟩⟩
  have herr : compileToVm {} source =
      .error ⟨.unexpected (.symbol '\x7b') (some ⟨.identifier "B", span, "B"⟩), some span⟩ := by
    decide +kernel
  refine ⟨_, span, herr, rfl, rfl, ⟨[], [], ?_, .inl rfl, ?_, ?_, ?_, ?_⟩, ?_⟩
  · decide +kernel
  · decide +kernel
  · exact ⟨marked, by decide +kernel⟩
  · decide +kernel
  · decide +kernel
  · decide +kernel

end Jack
