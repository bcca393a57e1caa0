import Jack.Proofs.Parse.Prefix

/-!
# The places of actions

An action that can fail carries the span that its error is about. Spans are handed on from goal to
goal, and every one of them is the span of a token that the script takes: a goal that looks at a
token has its span only where it takes the token, but for an argument of a call. There an expression
comes first, which takes the token or ends the script.
-/

namespace Jack

namespace Action

/-- The span that an action is about. -/
def span? : Action → Option Span
  | .declare _ _ _ span | .missingReturn _ _ span | .integer _ span | .string _ span
  | .thisObject span | .require _ span | .load _ span | .store _ span | .receiver _ span
  | .countArgument _ span | .call _ _ span => some span
  | _ => none

/-- The spans that actions are about. -/
def spans (as : List Action) : List Span := as.filterMap span?

/-- An empty list of actions is about no spans. -/
@[simp] lemma spans_nil : spans [] = [] := rfl

/-- The span of the first action comes first. -/
@[simp] lemma spans_cons (a : Action) (as : List Action) :
    spans (a :: as) = a.span?.toList ++ spans as := by
  cases h : a.span? <;> simp [spans, h]

/-- Spans come in the order of the actions. -/
@[simp] lemma spans_append (as bs : List Action) : spans (as ++ bs) = spans as ++ spans bs :=
  List.filterMap_append

end Action

open Jack.Action Script

/-- The spans that a goal hands on. -/
def Goal.spans : Goal → List Span
  | .perform actions => Action.spans actions
  | .letRest _ span | .afterName _ span | .callRest _ span | .member _ span => [span]
  | _ => []

/-- The spans that goals hand on. -/
def Goal.allSpans (goals : List Goal) : List Span := goals.flatMap Goal.spans

namespace Goal

/-- An empty list of goals holds no spans. -/
@[simp] lemma allSpans_nil : allSpans [] = [] := rfl

/-- The spans of the first goal come first. -/
@[simp] lemma allSpans_cons (g : Goal) (gs : List Goal) :
    allSpans (g :: gs) = g.spans ++ allSpans gs := rfl

/-- Spans come in the order of the goals. -/
@[simp] lemma allSpans_append (gs hs : List Goal) :
    allSpans (gs ++ hs) = allSpans gs ++ allSpans hs :=
  List.flatMap_append

end Goal

/-- A move of a goal with the spans `own` hands on these, and the span `here` of the current token
where it takes that token or goes on with an expression. -/
def Move.HandsOn (own : List Span) (here : Span) : Move → Prop
  | .skip actions goals =>
    Action.spans actions ⊆ own ∧
      (Goal.allSpans goals ⊆ own ∨
        ∃ more, goals = .expression :: more ∧ Goal.allSpans goals ⊆ here :: own)
  | .take actions goals =>
    Action.spans actions ⊆ here :: own ∧ Goal.allSpans goals ⊆ here :: own
  | .reject actions _ => Action.spans actions ⊆ own

/-- The code of a word is about the place of the word. -/
lemma Move.spans_termKeyword {k : Keyword} {here : Span} {code : List Action}
    (h : Move.termKeyword k here = some code) : Action.spans code ⊆ [here] := by
  cases k <;> cases h <;> simp [span?]

/-- The goals behind a symbol in front of a term hold no spans. -/
lemma Move.allSpans_termSymbol {c : Char} {goals : List Goal}
    (h : Move.termSymbol c = some goals) : Goal.allSpans goals = [] := by
  unfold Move.termSymbol at h
  split at h
  · cases h
    rfl
  · obtain ⟨op, -, rfl⟩ := Option.map_eq_some_iff.1 h
    rfl

namespace Goal

/-- A term has its span from the token it takes. -/
lemma handsOn_term (current : TokenKind) (here : Span) :
    (Move.term current here).HandsOn [] here := by
  unfold Move.term
  cases current with
  | keyword k =>
    cases hk : Move.termKeyword k here with
    | none => simp [hk, Move.HandsOn, span?]
    | some code =>
      have hs := Move.spans_termKeyword hk
      simpa [hk, Move.HandsOn, span?, Goal.spans] using hs
  | symbol c =>
    cases hc : Move.termSymbol c with
    | none => simp [hc, Move.HandsOn, span?]
    | some goals =>
      simp [hc, Move.HandsOn, span?, Goal.spans, Move.allSpans_termSymbol hc]
  | _ => simp [Move.HandsOn, span?, Goal.spans]

/-- Every move hands on the spans of its goal and that of a token it takes. -/
lemma handsOn_predict (g : Goal) (current : TokenKind) (here : Span) :
    (g.predict current here).HandsOn g.spans here := by
  cases g
  case term => exact handsOn_term current here
  all_goals
    simp only [Goal.predict, Move.symbol, Move.keyword, Move.identifier, Move.type,
      Move.classVarDecs, Move.subroutineDecs, Move.endOfInput, Move.resultType,
      Move.subroutineRest, Move.parameters, Move.afterComma, Move.varDecs, Move.innerBlock,
      Move.closeBlock, Move.statements, Move.letRest, Move.elsePart, Move.returnValue,
      Move.operators, Move.afterName, Move.argumentList, Move.callRest, Move.closeArguments,
      Move.arguments, Move.argument, Move.moreArguments]
    repeat' split
    all_goals simp [Move.HandsOn, Goal.spans, span?]

end Goal

namespace Script

/-- An expression takes the current token before anything is done about a place. -/
lemma spans_expression (tokens : List Token) (last : Span) (goals : List Goal) :
    spans (meetOnto tokens last (.expression :: goals) #[]).actions = [] ∨
      ∃ t ∈ taken (meetOnto tokens last (.expression :: goals) #[]).actions,
        t.span = currentSpan last tokens := by
  have hp : Goal.expression.predict (currentKind tokens) (currentSpan last tokens) =
      .skip [.openNode .expression] [.term, .operators] := rfl
  rw [meetOnto_skip hp, List.cons_append]
  cases ht : Goal.term.predict (currentKind tokens) (currentSpan last tokens) with
  | skip actions new =>
    simp only [Goal.predict, Move.term] at ht
    repeat' split at ht
    all_goals cases ht
  | take actions new =>
    cases tokens with
    | nil => exact absurd ht (Goal.predict_eof_ne_take _ _ _ _)
    | cons t ts =>
      right
      rw [meetOnto_take ht]
      refine ⟨t, ?_, rfl⟩
      simp [after, taken?]
  | reject actions expected =>
    have hs := Goal.handsOn_predict .term (currentKind tokens) (currentSpan last tokens)
    rw [ht] at hs
    left
    rw [meetOnto_reject ht]
    exact List.subset_nil.1 hs

/-- The spans in a script are handed on by its goals or are spans of tokens that it takes. -/
lemma spans_meetOnto (tokens : List Token) (last : Span) (goals : List Goal) :
    ∀ s ∈ spans (meetOnto tokens last goals #[]).actions,
      s ∈ Goal.allSpans goals ∨
        ∃ t ∈ taken (meetOnto tokens last goals #[]).actions, t.span = s := by
  induction tokens, last, goals using meetOnto_induction with
  | nil tokens last => simp
  | skip tokens last goal goals actions new h ih =>
    have hm := goal.handsOn_predict (currentKind tokens) (currentSpan last tokens)
    rw [h] at hm
    obtain ⟨ha, hn⟩ := hm
    rw [meetOnto_skip h]
    simp only [after, spans_append, taken_append, List.mem_append, Goal.allSpans_cons]
    rintro s (hs | hs)
    · exact .inl (.inl (ha hs))
    obtain hg | ⟨t, ht, hts⟩ := ih s hs
    · rw [Goal.allSpans_append, List.mem_append] at hg
      obtain hg | hg := hg
      · obtain hn | ⟨more, rfl, hn⟩ := hn
        · exact .inl (.inl (hn hg))
        · obtain rfl | hg := List.mem_cons.1 (hn hg)
          · -- The place of an argument: its expression has taken the token there.
            rw [List.cons_append] at hs ⊢
            obtain hnil | ⟨t, ht, hts⟩ := spans_expression tokens last (more ++ goals)
            · rw [hnil] at hs
              cases hs
            · exact .inr ⟨t, .inr ht, hts⟩
          · exact .inl (.inl hg)
      · exact .inl (.inr hg)
    · exact .inr ⟨t, .inr ht, hts⟩
  | take token rest last goal goals actions new h ih =>
    have hm := goal.handsOn_predict (currentKind (token :: rest)) (currentSpan last (token :: rest))
    rw [h] at hm
    obtain ⟨ha, hn⟩ := hm
    have htoken : token ∈ taken (meetOnto (token :: rest) last (goal :: goals) #[]).actions := by
      rw [meetOnto_take h]
      simp [after, taken?]
    -- What the move has its span from is the token it takes.
    have hown : ∀ s ∈ token.span :: goal.spans, s ∈ Goal.allSpans (goal :: goals) ∨
        ∃ t ∈ taken (meetOnto (token :: rest) last (goal :: goals) #[]).actions, t.span = s := by
      intro s hs
      obtain rfl | hs := List.mem_cons.1 hs
      · exact .inr ⟨token, htoken, rfl⟩
      · exact .inl (List.mem_append_left _ hs)
    intro s hs
    rw [meetOnto_take h] at hs
    simp only [after, spans_append, spans_cons, spans_nil, span?, Option.toList_none,
      List.append_nil, List.mem_append] at hs
    obtain hs | hs := hs
    · exact hown s (ha hs)
    obtain hg | ⟨t, ht, hts⟩ := ih s hs
    · rw [Goal.allSpans_append, List.mem_append] at hg
      obtain hg | hg := hg
      · exact hown s (hn hg)
      · exact .inl (List.mem_append_right _ hg)
    · refine .inr ⟨t, ?_, hts⟩
      rw [meetOnto_take h]
      simp [after, ht]
  | reject tokens last goal goals actions expected h =>
    have hm := goal.handsOn_predict (currentKind tokens) (currentSpan last tokens)
    rw [h] at hm
    rw [meetOnto_reject h]
    intro s hs
    exact .inl (List.mem_append_left _ (hm hs))

/-- Whatever the actions of a class are about is a token that they take. -/
lemma exists_taken_of_mem_spans {tokens : List Token} {last span : Span}
    (h : span ∈ spans (ofTokens tokens last).actions) :
    ∃ t ∈ taken (ofTokens tokens last).actions, t.span = span := by
  obtain hg | ht := spans_meetOnto tokens last Goal.wholeClass span h
  · cases hg
  · exact ht

end Script

end Jack
