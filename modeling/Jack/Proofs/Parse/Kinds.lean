import Jack.Parse.Script
import Mathlib.Tactic.Lemma

/-!
# Scripts of token kinds

Following the grammar looks at the kinds of tokens only. Spans are handed on to the actions, and
whole tokens to the parse tree, but neither decides anything. So a script is determined, up to the
spans and lexemes in it, by the kinds of the tokens. `bare` forgets spans and lexemes, and
`Script.ofKinds` is the script of tokens that have none.

The equations at the end run a script of kinds: `after` puts actions in front of a script, and
`ofKinds_cons` meets one goal.
-/

namespace Jack

/-- The span of things that stand nowhere. -/
def nowhere : Span := .point .origin

/-- A token of a kind, without a place and a lexeme. -/
def TokenKind.bare (k : TokenKind) : Token := ⟨k, nowhere, ""⟩

/-- A token without its place and lexeme. -/
def Token.bare (t : Token) : Token := t.kind.bare

/-- An action without the places in it. -/
def Action.bare : Action → Action
  | .consume token => .consume token.bare
  | .openNode node => .openNode node
  | .closeNode node => .closeNode node
  | .enterClass name => .enterClass name
  | .declare name type kind _ => .declare name type kind nowhere
  | .enterSubroutine kind => .enterSubroutine kind
  | .enterBody kind name => .enterBody kind name
  | .missingReturn kind name _ => .missingReturn kind name nowhere
  | .implicitReturn name => .implicitReturn name
  | .emit i => .emit i
  | .integer value _ => .integer value nowhere
  | .string body _ => .string body nowhere
  | .thisObject _ => .thisObject nowhere
  | .require name _ => .require name nowhere
  | .load name _ => .load name nowhere
  | .store name _ => .store name nowhere
  | .operate op => .operate op
  | .openLabels => .openLabels
  | .branchTest => .branchTest
  | .branchElse => .branchElse
  | .branchEnd => .branchEnd
  | .loopTop => .loopTop
  | .loopTest => .loopTest
  | .loopEnd => .loopEnd
  | .receiver callee _ => .receiver callee nowhere
  | .countArgument count _ => .countArgument count nowhere
  | .call callee count _ => .call callee count nowhere

/-- A goal without the places in it. -/
def Goal.bare : Goal → Goal
  | .perform actions => .perform (actions.map Action.bare)
  | .letRest name _ => .letRest name nowhere
  | .afterName name _ => .afterName name nowhere
  | .callRest name _ => .callRest name nowhere
  | .member owner _ => .member owner nowhere
  | g => g

/-- A move without the places in it. -/
def Move.bare : Move → Move
  | .skip actions goals => .skip (actions.map Action.bare) (goals.map Goal.bare)
  | .take actions goals => .take (actions.map Action.bare) (goals.map Goal.bare)
  | .reject actions expected => .reject (actions.map Action.bare) expected

/-- A script without the places in it. -/
def Script.bare (s : Script) : Script := ⟨s.actions.map Action.bare, s.failure⟩

/-- The goals behind a symbol in front of a term hold no places. -/
lemma Move.map_bare_termSymbol {c : Char} {goals : List Goal}
    (h : Move.termSymbol c = some goals) : goals.map Goal.bare = goals := by
  unfold Move.termSymbol at h
  split at h
  · cases h; rfl
  · obtain ⟨op, _, rfl⟩ := Option.map_eq_some_iff.1 h
    rfl

/-- The code of a word holds the place of the word only. -/
lemma Move.map_bare_termKeyword (k : Keyword) (here : Span) :
    (Move.termKeyword k here).map (List.map Action.bare) = Move.termKeyword k nowhere := by
  cases k <;> rfl

/-- The move of a goal depends on places only where it hands them on. -/
lemma Goal.predict_bare (g : Goal) (current : TokenKind) (here : Span) :
    g.bare.predict current nowhere = (g.predict current here).bare := by
  cases g
  -- The tables of symbols and words hand on goals and actions that `bare` has to commute with.
  case term =>
    simp only [Goal.bare, Goal.predict, Move.term]
    cases current with
    | keyword k =>
      have h := Move.map_bare_termKeyword k here
      cases hk : Move.termKeyword k here with
      | none =>
        rw [hk] at h
        simp [hk, ← h, Move.bare, Action.bare]
      | some code =>
        rw [hk] at h
        simp [hk, ← h, Move.bare, Action.bare, Goal.bare]
    | symbol c =>
      cases hc : Move.termSymbol c with
      | none => simp [hc, Move.bare, Action.bare]
      | some goals =>
        simp [hc, Move.bare, Action.bare, Goal.bare, Move.map_bare_termSymbol hc]
    | _ => rfl
  all_goals
    simp only [Goal.bare, Goal.predict, Move.symbol, Move.keyword, Move.identifier, Move.type,
      Move.classVarDecs, Move.subroutineDecs, Move.endOfInput, Move.resultType,
      Move.subroutineRest, Move.parameters, Move.afterComma, Move.varDecs, Move.innerBlock,
      Move.closeBlock, Move.statements, Move.letRest, Move.elsePart, Move.returnValue,
      Move.operators, Move.afterName, Move.argumentList, Move.callRest, Move.closeArguments,
      Move.arguments, Move.argument, Move.moreArguments]
    repeat' split
    all_goals rfl

namespace Script

/-- Without places and lexemes the current token has the same kind. -/
@[simp] lemma currentKind_map_bare (tokens : List Token) :
    currentKind (tokens.map Token.bare) = currentKind tokens := by
  cases tokens <;> rfl

/-- Without places the current token stands nowhere. -/
@[simp] lemma currentSpan_map_bare (tokens : List Token) :
    currentSpan nowhere (tokens.map Token.bare) = nowhere := by
  cases tokens <;> rfl

/-! ## Meeting goals one after another -/

/-- A script with actions in front. -/
def after (actions : List Action) (s : Script) : Script := ⟨actions ++ s.actions, s.failure⟩

/-- No actions in front change nothing. -/
@[simp] lemma after_nil (s : Script) : after [] s = s := rfl

/-- Actions put in front twice are in front together. -/
@[simp] lemma after_after (as bs : List Action) (s : Script) :
    after as (after bs s) = after (as ++ bs) s := by
  simp [after]

section
variable {tokens rest : List Token} {token : Token} {last : Span} {goal : Goal}
  {goals new : List Goal} {actions : List Action} {expected : Expected}

/-- Without a goal there is nothing to do. -/
@[simp] lemma meetOnto_nil : meetOnto tokens last [] #[] = ⟨[], none⟩ := by
  simp [meetOnto]

/-- A goal met without a token is followed by what it goes on with. -/
lemma meetOnto_skip
    (h : goal.predict (currentKind tokens) (currentSpan last tokens) = .skip actions new) :
    meetOnto tokens last (goal :: goals) #[] =
      after actions (meetOnto tokens last (new ++ goals) #[]) := by
  rw [meetOnto_of_skip #[] h, meetOnto_eq]
  simp [after]

/-- A goal met by a token is followed, behind the token, by what it goes on with. -/
lemma meetOnto_take
    (h : goal.predict (currentKind (token :: rest)) (currentSpan last (token :: rest)) =
      .take actions new) :
    meetOnto (token :: rest) last (goal :: goals) #[] =
      after (actions ++ [.consume token]) (meetOnto rest token.span (new ++ goals) #[]) := by
  rw [meetOnto_of_take #[] h, meetOnto_eq]
  simp [after]

/-- A goal that is not met ends the script with what it expects. -/
lemma meetOnto_reject
    (h : goal.predict (currentKind tokens) (currentSpan last tokens) =
      .reject actions expected) :
    meetOnto tokens last (goal :: goals) #[] = ⟨actions, some expected⟩ := by
  rw [meetOnto_of_reject #[] h]
  simp

end

/-- Induction along a script, with one case for each kind of move. -/
@[elab_as_elim]
lemma meetOnto_induction {motive : List Token → Span → List Goal → Prop}
    (nil : ∀ tokens last, motive tokens last [])
    (skip : ∀ tokens last goal goals actions new,
      goal.predict (currentKind tokens) (currentSpan last tokens) = .skip actions new →
      motive tokens last (new ++ goals) → motive tokens last (goal :: goals))
    (take : ∀ token rest last goal goals actions new,
      goal.predict (currentKind (token :: rest)) (currentSpan last (token :: rest)) =
        .take actions new →
      motive rest token.span (new ++ goals) → motive (token :: rest) last (goal :: goals))
    (reject : ∀ tokens last goal goals actions expected,
      goal.predict (currentKind tokens) (currentSpan last tokens) = .reject actions expected →
      motive tokens last (goal :: goals))
    (tokens : List Token) (last : Span) (goals : List Goal) : motive tokens last goals := by
  -- The moves are the same whatever actions `meetOnto` carries along.
  refine meetOnto.induct (motive := fun tokens last goals _ => motive tokens last goals)
    ?_ ?_ ?_ ?_ tokens last goals #[]
  · intro tokens last _
    exact nil tokens last
  · intro tokens last _ goal goals actions new
    exact skip tokens last goal goals actions new
  · intro last _ goal goals actions new token rest
    exact take token rest last goal goals actions new
  · intro tokens last _ goal goals actions expected
    exact reject tokens last goal goals actions expected

/-! ## Scripts of kinds -/

/-- Forgetting the places in a script forgets them in the actions in front of it. -/
lemma bare_after (actions : List Action) (s : Script) :
    (after actions s).bare = after (actions.map Action.bare) s.bare := by
  simp [after, Script.bare]

/-- Tokens without places give the script without places. -/
lemma bare_meetOnto (tokens : List Token) (last : Span) (goals : List Goal) :
    (meetOnto tokens last goals #[]).bare =
      meetOnto (tokens.map Token.bare) nowhere (goals.map Goal.bare) #[] := by
  induction tokens, last, goals using meetOnto_induction with
  | nil tokens last => simp [Script.bare]
  | skip tokens last goal goals actions new h ih =>
    have hb := goal.predict_bare (currentKind tokens) (currentSpan last tokens)
    rw [h, ← currentKind_map_bare, ← currentSpan_map_bare tokens] at hb
    rw [meetOnto_skip h, bare_after, ih, List.map_cons, meetOnto_skip hb, List.map_append]
  | take token rest last goal goals actions new h ih =>
    have hb := goal.predict_bare (currentKind (token :: rest)) (currentSpan last (token :: rest))
    rw [h, ← currentKind_map_bare, ← currentSpan_map_bare (token :: rest)] at hb
    rw [meetOnto_take h, bare_after, ih, List.map_cons, List.map_cons, meetOnto_take hb,
      List.map_append, List.map_append]
    rfl
  | reject tokens last goal goals actions expected h =>
    have hb := goal.predict_bare (currentKind tokens) (currentSpan last tokens)
    rw [h, ← currentKind_map_bare, ← currentSpan_map_bare tokens] at hb
    rw [meetOnto_reject h, List.map_cons, meetOnto_reject hb]
    simp [Script.bare]

/-- The script of token kinds. -/
def ofKinds (kinds : List TokenKind) (goals : List Goal) : Script :=
  meetOnto (kinds.map TokenKind.bare) nowhere goals #[]

/-- The kinds of tokens give their script without places. -/
lemma bare_ofTokens (tokens : List Token) (last : Span) :
    (ofTokens tokens last).bare = ofKinds (tokens.map Token.kind) Goal.wholeClass := by
  have h := bare_meetOnto tokens last Goal.wholeClass
  have hm : tokens.map Token.bare = (tokens.map Token.kind).map TokenKind.bare := by
    rw [List.map_map]
    rfl
  rw [hm] at h
  exact h

/-! ## Running scripts of kinds -/

/-- The kind of the current token. -/
def current : List TokenKind → TokenKind
  | [] => .eof
  | k :: _ => k

/-- The first kind is the current one. -/
@[simp] lemma current_cons (k : TokenKind) (ks : List TokenKind) : current (k :: ks) = k := rfl

/-- A token made from a kind has that kind. -/
lemma currentKind_bare (ks : List TokenKind) :
    currentKind (ks.map TokenKind.bare) = current ks := by
  cases ks <;> rfl

/-- Tokens made from kinds stand nowhere. -/
lemma currentSpan_bare (ks : List TokenKind) :
    currentSpan nowhere (ks.map TokenKind.bare) = nowhere := by
  cases ks <;> rfl

/-- Without goals there is nothing to do. -/
@[simp] lemma ofKinds_nil (ks : List TokenKind) : ofKinds ks [] = ⟨[], none⟩ :=
  meetOnto_nil

/-- What a move makes of the token kinds at hand, with goals left for later. -/
def resume (ks : List TokenKind) (goals : List Goal) : Move → Script
  | .skip actions new => after actions (ofKinds ks (new ++ goals))
  | .take actions new =>
    after (actions ++ [.consume (current ks).bare]) (ofKinds ks.tail (new ++ goals))
  | .reject actions expected => ⟨actions, some expected⟩

/-- A move at the current kind is the move at a token made from it. -/
lemma predict_current {ks : List TokenKind} {goal : Goal} {m : Move}
    (h : goal.predict (current ks) nowhere = m) :
    goal.predict (currentKind (ks.map TokenKind.bare))
      (currentSpan nowhere (ks.map TokenKind.bare)) = m := by
  rw [currentKind_bare, currentSpan_bare, h]

/-- Scripts of kinds are run goal by goal. -/
lemma ofKinds_cons (ks : List TokenKind) (goal : Goal) (goals : List Goal) :
    ofKinds ks (goal :: goals) = resume ks goals (goal.predict (current ks) nowhere) := by
  cases h : goal.predict (current ks) nowhere with
  | skip actions new =>
    rw [ofKinds, meetOnto_skip (predict_current h)]
    rfl
  | take actions new =>
    cases ks with
    -- No goal takes the end of the input, so there is a token to take.
    | nil => exact absurd h (goal.predict_eof_ne_take _ _ _)
    | cons k ks =>
      have hb := predict_current h
      rw [List.map_cons] at hb
      rw [ofKinds, List.map_cons, meetOnto_take hb]
      rfl
  | reject actions expected =>
    rw [ofKinds, meetOnto_reject (predict_current h)]
    rfl

/-- Induction along a script of kinds, with one case for each kind of move. -/
@[elab_as_elim]
lemma kinds_induction {motive : List TokenKind → List Goal → Prop}
    (nil : ∀ ks, motive ks [])
    (skip : ∀ ks goal goals actions new, goal.predict (current ks) nowhere = .skip actions new →
      motive ks (new ++ goals) → motive ks (goal :: goals))
    (take : ∀ k ks goal goals actions new, goal.predict k nowhere = .take actions new →
      motive ks (new ++ goals) → motive (k :: ks) (goal :: goals))
    (reject : ∀ ks goal goals actions expected,
      goal.predict (current ks) nowhere = .reject actions expected → motive ks (goal :: goals))
    (ks : List TokenKind) (goals : List Goal) : motive ks goals := by
  -- Along the script of tokens that have the kinds and stand nowhere.
  generalize ht : ks.map TokenKind.bare = tokens
  generalize hl : nowhere = last
  induction tokens, last, goals using meetOnto_induction generalizing ks with
  | nil => exact nil ks
  | skip tokens last goal goals actions new h ih =>
    subst ht hl
    rw [currentKind_bare, currentSpan_bare] at h
    exact skip ks goal goals actions new h (ih ks rfl rfl)
  | take token rest last goal goals actions new h ih =>
    cases ks with
    | nil => cases ht
    | cons k ks =>
      cases ht
      exact take k ks goal goals actions new h (ih ks rfl rfl)
  | reject tokens last goal goals actions expected h =>
    subst ht hl
    rw [currentKind_bare, currentSpan_bare] at h
    exact reject ks goal goals actions expected h

end Script

end Jack
