import Jack.Parse.Goal

/-!
# Scripts

Following the grammar over a list of tokens gives a script: the actions to carry out, and what was
expected at the token where the grammar could not be followed any further. Where the tokens run out,
the input ends.
-/

namespace Jack

/-- The actions of a list of tokens. -/
structure Script where
  /-- What to do, in order. -/
  actions : List Action
  /-- What was expected after the actions, if the tokens do not make a class. -/
  failure : Option Expected
  deriving DecidableEq, Repr

namespace Script

/-- The kind of the current token. -/
def currentKind : List Token → TokenKind
  | [] => .eof
  | t :: _ => t.kind

/-- The span of the current token; where the tokens have run out, that of the last one taken. -/
def currentSpan (last : Span) : List Token → Span
  | [] => last
  | t :: _ => t.span

/-- Meets goals one after another, adding the actions to `out`. -/
def meetOnto (tokens : List Token) (last : Span) (goals : List Goal) (out : Array Action) :
    Script :=
  match goals with
  | [] => ⟨out.toList, none⟩
  | goal :: goals =>
    match h : goal.predict (currentKind tokens) (currentSpan last tokens) with
    | .skip actions new => meetOnto tokens last (new ++ goals) (out ++ actions)
    | .take actions new =>
      match tokens with
      | [] => absurd h (goal.predict_eof_ne_take _ _ _)
      | token :: rest =>
        meetOnto rest token.span (new ++ goals) ((out ++ actions).push (.consume token))
    | .reject actions expected => ⟨(out ++ actions).toList, some expected⟩
termination_by tokens.length * Goal.tokenWeight + Goal.weights goals
decreasing_by
  · have hl := goal.loses_predict (currentKind tokens) (currentSpan last tokens)
    rw [h] at hl
    simp only [Move.Loses] at hl
    simp only [Goal.weights_append, Goal.weights_cons]
    omega
  · have hl := goal.loses_predict (currentKind (token :: rest)) (currentSpan last (token :: rest))
    rw [h] at hl
    simp only [Move.Loses] at hl
    simp only [Goal.weights_append, Goal.weights_cons, List.length_cons, Nat.add_mul, Nat.one_mul]
    omega

/-- A goal met without a token goes on from the same tokens. -/
theorem meetOnto_of_skip {tokens : List Token} {last : Span} {goal : Goal} {goals new : List Goal}
    {actions : List Action} (out : Array Action)
    (h : goal.predict (currentKind tokens) (currentSpan last tokens) = .skip actions new) :
    meetOnto tokens last (goal :: goals) out =
      meetOnto tokens last (new ++ goals) (out ++ actions) := by
  rw [meetOnto]
  split <;> simp_all

/-- A goal met by a token consumes it. -/
theorem meetOnto_of_take {token : Token} {rest : List Token} {last : Span} {goal : Goal}
    {goals new : List Goal} {actions : List Action} (out : Array Action)
    (h : goal.predict (currentKind (token :: rest)) (currentSpan last (token :: rest)) =
      .take actions new) :
    meetOnto (token :: rest) last (goal :: goals) out =
      meetOnto rest token.span (new ++ goals) ((out ++ actions).push (.consume token)) := by
  rw [meetOnto]
  split <;> simp_all

/-- A goal that is not met ends the script. -/
theorem meetOnto_of_reject {tokens : List Token} {last : Span} {goal : Goal} {goals : List Goal}
    {actions : List Action} {expected : Expected} (out : Array Action)
    (h : goal.predict (currentKind tokens) (currentSpan last tokens) = .reject actions expected) :
    meetOnto tokens last (goal :: goals) out = ⟨(out ++ actions).toList, some expected⟩ := by
  rw [meetOnto]
  split <;> simp_all

/-- The actions already there come first and change nothing else. -/
theorem meetOnto_eq (tokens : List Token) (last : Span) (goals : List Goal) (out : Array Action) :
    meetOnto tokens last goals out =
      ⟨out.toList ++ (meetOnto tokens last goals #[]).actions,
        (meetOnto tokens last goals #[]).failure⟩ := by
  suffices ∀ before : Array Action, meetOnto tokens last goals before =
      ⟨before.toList ++ (meetOnto tokens last goals #[]).actions,
        (meetOnto tokens last goals #[]).failure⟩ from this out
  induction tokens, last, goals, out using meetOnto.induct with
  | case1 tokens last _ => simp [meetOnto]
  | case2 tokens last _ goal goals actions new h ih =>
    intro before
    rw [meetOnto_of_skip before h, meetOnto_of_skip #[] h, ih, ih (#[] ++ actions)]
    simp
  | case3 last _ goal goals actions new token rest h ih =>
    intro before
    rw [meetOnto_of_take before h, meetOnto_of_take #[] h, ih, ih (.push _ _)]
    simp
  | case4 tokens last _ goal goals actions expected h =>
    intro before
    rw [meetOnto_of_reject before h, meetOnto_of_reject #[] h]
    simp

/-- The script of a class. -/
def ofTokens (tokens : List Token) (last : Span) : Script :=
  meetOnto tokens last Goal.wholeClass #[]

end Script

end Jack
