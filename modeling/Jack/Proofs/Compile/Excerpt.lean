import Jack.Proofs.Compile.Blame
import Jack.Proofs.Text.Lines

/-!
# The line that a report shows

Every error of a source is about one of its tokens. The position where the token starts counts the
line feeds before it, so the report of the error shows the line of the source that the token starts
in.
-/

namespace Jack

/-- A token starts in the line whose number its position has. -/
lemma lineAround_start {source : String} {t : Token} (ht : t ∈ tokensOf source) :
    Text.LineAround source.toList t.span.start.offset
      (Text.lineAt t.span.start.line source.toList) := by
  have hstart : t.span.start = .behind ((Text.Utf8.bytes source).take t.span.start.offset) :=
    ((positioned_tokensOf source).isIn t ht).1
  have hoffset := congrArg Pos.offset hstart
  have hline := congrArg Pos.line hstart
  simp only [Pos.behind, List.length_take] at hoffset hline
  rw [hline]
  apply Text.lineAround_lineAt
  change _ ≤ (Text.Utf8.bytes source).length
  omega

/-- Repeating another character makes no line feed. -/
lemma newline_not_mem_repeated {c : Char} (hc : c ≠ '\n') (n : Nat) :
    '\n' ∉ (repeated n c).toList := by
  rw [repeated, String.toList_ofList]
  intro h
  exact hc (List.eq_of_mem_replicate h).symm

/-- Behind everything else an excerpt shows the line of the source and the marks. -/
lemma exists_toList_excerpt (headline source : String) (span : Span) :
    ∃ front, (excerpt (some span) headline source).toList =
      front ++ '\n' :: ((span.start.line.repr ++ " | ").toList ++
        Text.lineAt span.start.line source.toList ++
        '\n' :: (repeated span.start.line.repr.length ' ' ++ " | " ++
          repeated (span.start.column - 1) ' ' ++ repeated (markWidth span) '^').toList) := by
  let number := span.start.line.repr
  let gutter := repeated number.length ' '
  refine ⟨("error: " ++ headline ++ "\n" ++ gutter ++ "--> line " ++ number ++ ", col " ++
    span.start.column.repr ++ "\n" ++ gutter ++ " |").toList, ?_⟩
  have hnewline : "\n".toList = ['\n'] := rfl
  unfold excerpt
  simp only [number, gutter, hnewline, String.toList_append, String.toList_ofList,
    List.append_assoc, List.cons_append, List.nil_append]

namespace CompileError

/-- The last line but one of a report is the line of the source, and the last one marks the span. -/
lemma pieces_report (e : CompileError) {span : Span} (h : e.span = some span)
    {source : String} (hline : '\n' ∉ Text.lineAt span.start.line source.toList) :
    let number := span.start.line.repr
    ∃ front, Text.pieces (· == '\n') (e.report source).toList =
      front ++ [(number ++ " | ").toList ++ Text.lineAt span.start.line source.toList,
        (repeated number.length ' ' ++ " | " ++ repeated (span.start.column - 1) ' ' ++
          repeated (markWidth span) '^').toList] := by
  intro number
  have hnumberLine :
      '\n' ∉ (number ++ " | ").toList ++ Text.lineAt span.start.line source.toList := by
    have hdigits : '\n' ∉ number.toList := fun hm =>
      absurd (Vm.Instruction.isDigit_of_mem_repr hm) (by decide)
    simp [hdigits, hline]
  have hmarks : '\n' ∉ (repeated number.length ' ' ++ " | " ++
      repeated (span.start.column - 1) ' ' ++ repeated (markWidth span) '^').toList := by
    have hspace := newline_not_mem_repeated (c := ' ') (by decide)
    have hcaret := newline_not_mem_repeated (c := '^') (by decide)
    simp [hspace, hcaret]
  obtain ⟨front, hfront⟩ := exists_toList_excerpt e.headline source span
  refine ⟨Text.pieces (· == '\n') front, ?_⟩
  rw [report, h, hfront, Text.pieces_append_cons (by decide), Text.pieces_append_cons (by decide),
    Text.pieces_line hnumberLine, Text.pieces_line hmarks]
  rfl

/-- Of the lines of a report with a place, the last but one is the numbered line of the source. -/
lemma exists_pieces_report (e : CompileError) {span : Span} (h : e.span = some span)
    {source : String} (hline : '\n' ∉ Text.lineAt span.start.line source.toList) :
    ∃ front marks, Text.pieces (· == '\n') (e.report source).toList =
      front ++ [(span.start.line.repr ++ " | ").toList ++
        Text.lineAt span.start.line source.toList, marks] := by
  obtain ⟨front, hreport⟩ := e.pieces_report h hline
  exact ⟨front, _, hreport⟩

end CompileError

/-- Every error is about a token of its source, and its report shows the line of the source that the
token starts in. -/
theorem report_shows_line_of_token (o : Options) (source : String) (err : CompileError)
    (h : Fails o source err) :
    ∃ t ∈ tokensOf source, err.span = some t.span ∧
      ∃ shown front marks, Text.LineAround source.toList t.span.start.offset shown ∧
        Text.pieces (· == '\n') (err.report source).toList =
          front ++ [(t.span.start.line.repr ++ " | ").toList ++ shown, marks] := by
  obtain ⟨done, t, rest, ht, -, hspan, -⟩ := h.exists_blamed
  have hmem : t ∈ tokensOf source := by
    rw [ht]
    exact List.mem_append_right done List.mem_cons_self
  have haround := lineAround_start hmem
  obtain ⟨front, marks, hreport⟩ := err.exists_pieces_report hspan haround.newline_not_mem
  exact ⟨t, hmem, hspan, _, front, marks, haround, hreport⟩

/-- A line that ends in a carriage return and a line feed is shown without them. -/
theorem report_shows_line_of_token_behind_return :
    let source := "class A\r\n  B\r\n"
    ∃ err, compileToVm {} source = .error err ∧
      err.report source = "error: unexpected token: expected `\x7b`, found identifier `B`\n" ++
        " --> line 2, col 3\n" ++ "  |\n" ++ "2 |   B\n" ++ "  |   ^" ∧
      ∃ t ∈ tokensOf source, err.span = some t.span ∧
        ∃ shown front marks, Text.LineAround source.toList t.span.start.offset shown ∧
          Text.pieces (· == '\n') (err.report source).toList =
            front ++ [(t.span.start.line.repr ++ " | ").toList ++ shown, marks] := by
  intro source
  let found : Token := ⟨.identifier "B", ⟨⟨11, 2, 3⟩, ⟨12, 2, 4⟩⟩, "B"⟩
  have herr : compileToVm {} source =
      .error ⟨.unexpected (.symbol '\x7b') (some found), some found.span⟩ := by
    decide +kernel
  refine ⟨_, herr, by decide +kernel, ?_⟩
  exact report_shows_line_of_token {} source _ (.toVm herr)

end Jack
