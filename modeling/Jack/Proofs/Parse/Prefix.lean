import Jack.Proofs.Parse.Sound

/-!
# Tokens that can be completed

Following the grammar takes tokens from the front, looks at one token more, and never takes a token
that no class goes on with: whatever has been taken can be completed to the tokens of a class. Both
are facts about stacks of goals. A stack is met in order, so that the goals which end a class stand
at its bottom (`ClosesLast`), and only the moves themselves take tokens, not the actions that a
goal holds (`Goal.Quiet`).
-/

namespace Jack

namespace Action

/-- The token that an action takes. -/
def taken? : Action → Option Token
  | .consume token => some token
  | _ => none

/-- The tokens that actions take, in order. -/
def taken (as : List Action) : List Token := as.filterMap taken?

variable (a : Action) (as bs : List Action)

/-- An empty list of actions takes no tokens. -/
@[simp] lemma taken_nil : taken [] = [] := rfl

/-- Tokens are taken in order. -/
@[simp] lemma taken_append : taken (as ++ bs) = taken as ++ taken bs := List.filterMap_append

/-- The token of the first action comes first. -/
@[simp] lemma taken_cons : taken (a :: as) = a.taken?.toList ++ taken as := by
  cases h : a.taken? <;> simp [taken, h]

/-- Without their places, actions take tokens of the same kinds. -/
lemma map_kind_taken_bare : (taken (as.map bare)).map Token.kind = (taken as).map Token.kind := by
  have h : (taken (as.map bare)) = (taken as).map Token.bare := by
    rw [taken, taken, List.filterMap_map, List.map_filterMap]
    congr
    funext a
    cases a <;> rfl
  rw [h, List.map_map]
  rfl

end Action

open Jack.Action Script

/-- A goal holds no action that takes a token. -/
def Goal.Quiet : Goal → Prop
  | .perform actions => taken actions = []
  | _ => True

/-- Does a goal go on to the end of the input? -/
def Goal.closes : Goal → Bool
  | .classVarDecs | .subroutineDecs | .endOfInput => true
  | _ => false

/-- The actions of a move. -/
def Move.actions : Move → List Action
  | .skip actions _ => actions
  | .take actions _ => actions
  | .reject actions _ => actions

/-- The goals that a move goes on with. -/
def Move.goals : Move → List Goal
  | .skip _ goals => goals
  | .take _ goals => goals
  | .reject _ _ => []

/-- Only the last goal may go on to the end of the input. -/
def ClosesLast : List Goal → Prop
  | [] => True
  | g :: gs => (g.closes = true → gs = []) ∧ ClosesLast gs

/-- Goals that do not end a class may stand on a stack. -/
lemma closesLast_append {gs hs : List Goal} (hg : ∀ g ∈ gs, g.closes = false)
    (hh : ClosesLast hs) : ClosesLast (gs ++ hs) := by
  induction gs with
  | nil => exact hh
  | cons g gs ih =>
    have ho := hg g List.mem_cons_self
    refine ⟨fun hc => ?_, ih fun g' hg' => hg g' (List.mem_cons_of_mem g hg')⟩
    rw [ho] at hc
    cases hc

/-- The goals that following the grammar is left with. -/
structure Goal.Stack (goals : List Goal) : Prop where
  quiet : ∀ g ∈ goals, g.Quiet
  closes : ClosesLast goals

/-- The code of a word takes no token. -/
lemma Move.quiet_termKeyword {k : Keyword} {here : Span} {code : List Action}
    (h : Move.termKeyword k here = some code) : taken code = [] := by
  cases k <;> cases h <;> rfl

/-- The goals behind a symbol in front of a term take no tokens by themselves and end no class. -/
lemma Move.goals_termSymbol {c : Char} {goals : List Goal} (h : Move.termSymbol c = some goals) :
    ∀ g ∈ goals, g.Quiet ∧ g.closes = false := by
  unfold Move.termSymbol at h
  split at h
  · cases h
    simp [Goal.Quiet, Goal.closes]
  · obtain ⟨op, _, rfl⟩ := Option.map_eq_some_iff.1 h
    simp [Goal.Quiet, Goal.closes, taken?]

namespace Goal

/-- No action of a move takes a token. -/
lemma quiet_predict {g : Goal} (h : g.Quiet) (current : TokenKind) (here : Span) :
    taken (g.predict current here).actions = [] ∧
      ∀ g' ∈ (g.predict current here).goals, g'.Quiet := by
  cases g
  case term =>
    simp only [Goal.predict, Move.term]
    split
    · simp [Move.actions, Move.goals, Goal.Quiet, taken?]
    · simp [Move.actions, Move.goals, Goal.Quiet, taken?]
    · split
      · next hk =>
        simp [Move.actions, Move.goals, Goal.Quiet, taken?, Move.quiet_termKeyword hk]
      · simp [Move.actions, Move.goals, taken?]
    · split
      · next goals hg =>
        refine ⟨rfl, ?_⟩
        simp only [Move.goals, List.mem_append, List.mem_singleton]
        rintro g' (hm | rfl)
        · exact (Move.goals_termSymbol hg g' hm).1
        · rfl
      · simp [Move.actions, Move.goals, taken?]
    · simp [Move.actions, Move.goals, Goal.Quiet, taken?]
    · simp [Move.actions, Move.goals, taken?]
  case perform actions => exact ⟨h, by simp [Goal.predict, Move.goals]⟩
  all_goals
    simp only [Goal.predict, Move.symbol, Move.keyword, Move.identifier, Move.type,
      Move.classVarDecs, Move.subroutineDecs, Move.endOfInput, Move.resultType,
      Move.subroutineRest, Move.parameters, Move.afterComma, Move.varDecs, Move.innerBlock,
      Move.closeBlock, Move.statements, Move.letRest, Move.elsePart, Move.returnValue,
      Move.operators, Move.afterName, Move.argumentList, Move.callRest, Move.closeArguments,
      Move.arguments, Move.argument, Move.moreArguments]
    repeat' split
    all_goals simp [Move.actions, Move.goals, Goal.Quiet, taken?]

/-- The goals that end a class come last in every move, and only out of such a goal. -/
lemma closes_predict (g : Goal) (current : TokenKind) (here : Span) :
    ClosesLast (g.predict current here).goals ∧
      (g.closes = false → ∀ g' ∈ (g.predict current here).goals, g'.closes = false) := by
  cases g
  case term =>
    have ho : ∀ g' ∈ (Goal.term.predict current here).goals, g'.closes = false := by
      simp only [Goal.predict, Move.term]
      split
      · simp [Move.goals, Goal.closes]
      · simp [Move.goals, Goal.closes]
      · split <;> simp [Move.goals, Goal.closes]
      · split
        · next goals hg =>
          simp only [Move.goals, List.mem_append, List.mem_singleton]
          rintro g' (hm | rfl)
          · exact (Move.goals_termSymbol hg g' hm).2
          · rfl
        · simp [Move.goals]
      · simp [Move.goals, Goal.closes]
      · simp [Move.goals]
    refine ⟨?_, fun _ => ho⟩
    rw [← List.append_nil (Move.goals _)]
    exact closesLast_append ho trivial
  all_goals
    simp only [Goal.predict, Move.symbol, Move.keyword, Move.identifier, Move.type,
      Move.classVarDecs, Move.subroutineDecs, Move.endOfInput, Move.resultType,
      Move.subroutineRest, Move.parameters, Move.afterComma, Move.varDecs, Move.innerBlock,
      Move.closeBlock, Move.statements, Move.letRest, Move.elsePart, Move.returnValue,
      Move.operators, Move.afterName, Move.argumentList, Move.callRest, Move.closeArguments,
      Move.arguments, Move.argument, Move.moreArguments]
    repeat' split
    all_goals simp [Move.goals, Goal.closes, ClosesLast]

/-- The actions of a move on a stack take no tokens. -/
lemma Stack.taken_actions {g : Goal} {gs : List Goal} (h : Stack (g :: gs)) (current : TokenKind)
    (here : Span) : taken (g.predict current here).actions = [] :=
  (quiet_predict (h.quiet g List.mem_cons_self) current here).1

/-- A move leaves a stack. -/
lemma Stack.move {g : Goal} {gs : List Goal} (h : Stack (g :: gs)) (current : TokenKind)
    (here : Span) : Stack ((g.predict current here).goals ++ gs) where
  quiet := by
    intro g' hg
    obtain hg | hg := List.mem_append.1 hg
    · exact (quiet_predict (h.quiet g List.mem_cons_self) current here).2 g' hg
    · exact h.quiet g' (List.mem_cons_of_mem g hg)
  closes := by
    obtain ⟨hl, ho⟩ := closes_predict g current here
    cases hc : g.closes with
    | true =>
      obtain rfl : gs = [] := h.closes.1 hc
      rwa [List.append_nil]
    | false => exact closesLast_append (ho hc) h.closes.2

section
variable {g : Goal} {gs new : List Goal} {actions : List Action} {current : TokenKind} {here : Span}

/-- A move without a token leaves a stack, and takes nothing. -/
lemma Stack.of_skip (hs : Stack (g :: gs)) (h : g.predict current here = .skip actions new) :
    Stack (new ++ gs) ∧ taken actions = [] := by
  have hm := hs.move current here
  have ht := hs.taken_actions current here
  rw [h] at hm ht
  exact ⟨hm, ht⟩

/-- A move by a token leaves a stack, and takes nothing but that token. -/
lemma Stack.of_take (hs : Stack (g :: gs)) (h : g.predict current here = .take actions new) :
    Stack (new ++ gs) ∧ taken actions = [] := by
  have hm := hs.move current here
  have ht := hs.taken_actions current here
  rw [h] at hm ht
  exact ⟨hm, ht⟩

end

/-- The goals of a class make a stack. -/
lemma stack_wholeClass : Stack wholeClass where
  quiet := by simp [wholeClass, Quiet, taken?]
  closes := by simp [wholeClass, ClosesLast, closes]

end Goal

/-! ## One token of look-ahead -/

namespace Script

/-- The current kind depends on the first token only. -/
lemma currentKind_eq_of_head? {ts us : List Token} (h : ts.head? = us.head?) :
    currentKind ts = currentKind us := by
  cases ts <;> cases us <;> simp_all [currentKind]

/-- The current span depends on the first token only. -/
lemma currentSpan_eq_of_head? {ts us : List Token} (h : ts.head? = us.head?) (last : Span) :
    currentSpan last ts = currentSpan last us := by
  cases ts <;> cases us <;> simp_all [currentSpan]

section
variable {tokens rest : List Token} {token : Token} {last : Span} {goal : Goal}
  {goals new : List Goal} {actions : List Action} {expected : Expected}

/-- Where a goal is met without a token, the tokens are taken by what it goes on with. -/
lemma taken_meetOnto_skip (hs : Goal.Stack (goal :: goals))
    (h : goal.predict (currentKind tokens) (currentSpan last tokens) = .skip actions new) :
    taken (meetOnto tokens last (goal :: goals) #[]).actions =
      taken (meetOnto tokens last (new ++ goals) #[]).actions := by
  rw [meetOnto_skip h, after, taken_append, (hs.of_skip h).2, List.nil_append]

/-- Where a goal is met by a token, this token is taken first. -/
lemma taken_meetOnto_take (hs : Goal.Stack (goal :: goals))
    (h : goal.predict (currentKind (token :: rest)) (currentSpan last (token :: rest)) =
      .take actions new) :
    taken (meetOnto (token :: rest) last (goal :: goals) #[]).actions =
      token :: taken (meetOnto rest token.span (new ++ goals) #[]).actions := by
  rw [meetOnto_take h, after, taken_append, taken_append, (hs.of_take h).2, List.nil_append]
  rfl

/-- Where a goal is not met, no token is taken. -/
lemma taken_meetOnto_reject (hs : Goal.Stack (goal :: goals))
    (h : goal.predict (currentKind tokens) (currentSpan last tokens) =
      .reject actions expected) :
    taken (meetOnto tokens last (goal :: goals) #[]).actions = [] := by
  have ht := hs.taken_actions (currentKind tokens) (currentSpan last tokens)
  rw [h] at ht
  rw [meetOnto_reject h]
  exact ht

end

/-- A script takes tokens from the front and looks at the one behind them: it stays the same where
only later tokens change. -/
lemma meetOnto_eq_of_head? (tokens : List Token) (last : Span) {goals : List Goal}
    (hs : Goal.Stack goals) :
    ∃ rest, tokens = taken (meetOnto tokens last goals #[]).actions ++ rest ∧
      ∀ rest', rest'.head? = rest.head? →
        meetOnto (taken (meetOnto tokens last goals #[]).actions ++ rest') last goals #[] =
          meetOnto tokens last goals #[] := by
  induction tokens, last, goals using meetOnto_induction with
  | nil tokens last => exact ⟨tokens, by simp, by simp⟩
  | skip tokens last goal goals actions new h ih =>
    obtain ⟨rest, hr, hl⟩ := ih (hs.of_skip h).1
    rw [taken_meetOnto_skip hs h, meetOnto_skip h]
    refine ⟨rest, hr, ?_⟩
    intro rest' he
    -- The move is the same, as the first token of what is left has not changed.
    have hh : (taken (meetOnto tokens last (new ++ goals) #[]).actions ++ rest').head? =
        tokens.head? :=
      calc (taken (meetOnto tokens last (new ++ goals) #[]).actions ++ rest').head?
          = (taken (meetOnto tokens last (new ++ goals) #[]).actions ++ rest).head? := by simp [he]
        _ = tokens.head? := congrArg List.head? hr.symm
    rw [← currentKind_eq_of_head? hh, ← currentSpan_eq_of_head? hh] at h
    rw [meetOnto_skip h, hl rest' he]
  | take token rest last goal goals actions new h ih =>
    obtain ⟨behind, hr, hl⟩ := ih (hs.of_take h).1
    rw [taken_meetOnto_take hs h, meetOnto_take h]
    refine ⟨behind, congrArg _ hr, ?_⟩
    intro rest' he
    -- The token stands in front of both, and the move looks no further.
    have h' : goal.predict
        (currentKind
          (token :: (taken (meetOnto rest token.span (new ++ goals) #[]).actions ++ rest')))
        (currentSpan last
          (token :: (taken (meetOnto rest token.span (new ++ goals) #[]).actions ++ rest'))) =
        .take actions new := h
    rw [List.cons_append, meetOnto_take h', hl rest' he]
  | reject tokens last goal goals actions expected h =>
    rw [taken_meetOnto_reject hs h, meetOnto_reject h]
    refine ⟨tokens, rfl, ?_⟩
    intro rest' he
    rw [← currentKind_eq_of_head? he, ← currentSpan_eq_of_head? he] at h
    exact meetOnto_reject h

end Script

/-! ## Completions -/

namespace Grammar

/-- Every goal can be met in front of tokens that may follow it. -/
lemma exists_reads (g : Goal) (rest : List TokenKind) (h : g.closes = true → rest = []) :
    ∃ ks, Reads ks rest g := by
  let null : Expr := .mk (.word .nullWord) .nil
  cases g with
  | perform actions => exact ⟨rest, rfl⟩
  | symbol c => exact ⟨_, rfl⟩
  | keyword k => exact ⟨_, rfl⟩
  | className => exact ⟨_, "x", rfl⟩
  | classVarDecs =>
    obtain rfl := h rfl
    exact ⟨_, [], [], rfl, rfl⟩
  | subroutineDecs =>
    obtain rfl := h rfl
    exact ⟨_, [], rfl, rfl⟩
  | endOfInput =>
    obtain rfl := h rfl
    exact ⟨_, rfl, rfl⟩
  | «variables» kind => exact ⟨_, ⟨.int, "x", []⟩, rfl⟩
  | «variable» type kind => exact ⟨_, "x", rfl⟩
  | moreVariables type kind => exact ⟨_, [], rfl⟩
  | resultType => exact ⟨_, none, rfl⟩
  | subroutineName kind => exact ⟨_, "x", [], [], .nil, rfl⟩
  | parameters => exact ⟨_, [], rfl⟩
  | parameter => exact ⟨_, ⟨.int, "x"⟩, rfl⟩
  | moreParameters => exact ⟨_, [], rfl⟩
  | varDecs => exact ⟨_, [], rfl⟩
  | statements block returned => exact ⟨_, .nil, rfl⟩
  | letTarget => exact ⟨_, "x", _, rfl, .inl ⟨null, rfl⟩⟩
  | letRest name span => exact ⟨_, .inl ⟨null, rfl⟩⟩
  | elsePart => exact ⟨_, .inl rfl⟩
  | returnValue => exact ⟨_, none, rfl⟩
  | expression => exact ⟨_, null, rfl⟩
  | operators => exact ⟨_, .nil, rfl⟩
  | term => exact ⟨_, .word .nullWord, rfl⟩
  | afterName name span => exact ⟨rest, .var name, rfl⟩
  | calledName => exact ⟨_, .own "x", .nil, rfl⟩
  | callRest name span => exact ⟨_, .own name, .nil, rfl, rfl⟩
  | member owner span => exact ⟨_, "x", .nil, rfl⟩
  | arguments callee => exact ⟨_, .nil, rfl⟩
  | argument callee count => exact ⟨_, null, .nil, rfl⟩
  | moreArguments callee count => exact ⟨_, .nil, rfl⟩

/-- A stack can be met by some tokens. -/
lemma exists_readsAll {goals : List Goal} (h : ClosesLast goals) : ∃ ks, ReadsAll ks [] goals := by
  induction goals with
  | nil => exact ⟨[], rfl⟩
  | cons g gs ih =>
    obtain ⟨mid, hm⟩ := ih h.2
    have he : g.closes = true → mid = [] := by
      intro hc
      obtain rfl := h.1 hc
      exact hm
    obtain ⟨ks, hk⟩ := exists_reads g mid he
    exact ⟨ks, mid, hk, hm⟩

/-- What has been taken can be completed to what the goals stand for, also where the grammar could
not be followed any further. -/
lemma exists_completion (ks : List TokenKind) {goals : List Goal} (hs : Goal.Stack goals) :
    ∃ more, ReadsAll ((taken (ofKinds ks goals).actions).map Token.kind ++ more) [] goals := by
  induction ks, goals using kinds_induction with
  | nil ks =>
    refine ⟨[], ?_⟩
    simp [ReadsAll]
  | skip ks goal goals actions new hp ih =>
    obtain ⟨hm, ht⟩ := hs.of_skip hp
    obtain ⟨more, hr⟩ := ih hm
    rw [ofKinds_cons, hp]
    simp only [resume, after, taken_append, ht, List.nil_append]
    obtain ⟨mid, hn, hg⟩ := readsAll_append.1 hr
    refine ⟨more, mid, reads_of_skip hp ?_ hn, hg⟩
    -- Nothing stands below the end of the input, so nothing has been taken for it.
    rintro rfl
    obtain rfl := hs.closes.1 rfl
    obtain rfl : mid = [] := hg
    rw [eq_eof_of_endOfInput_skip hp] at hp
    cases hp
    rw [hn]
    rfl
  | take k ks goal goals actions new hp ih =>
    obtain ⟨hm, ht⟩ := hs.of_take hp
    obtain ⟨more, hr⟩ := ih hm
    obtain ⟨mid, hn, hg⟩ := readsAll_append.1 hr
    rw [ofKinds_cons, current_cons, hp]
    simp only [resume, after, taken_append, ht, List.nil_append, taken_cons, taken_nil, taken?]
    exact ⟨more, mid, reads_of_take hp hn, hg⟩
  | reject ks goal goals actions expected hp =>
    have ht := hs.taken_actions (current ks) nowhere
    rw [hp] at ht
    simp only [Move.actions] at ht
    rw [ofKinds_cons, hp]
    simp only [resume, ht, List.map_nil, List.nil_append]
    exact exists_readsAll hs.closes

/-- What has been taken of the tokens of a class begins the tokens of a class. -/
lemma exists_yield_of_taken (tokens : List Token) (last : Span) :
    ∃ c : ClassDec, (taken (ofTokens tokens last).actions).map Token.kind <+: c.yield := by
  obtain ⟨more, hr⟩ := exists_completion (tokens.map Token.kind) Goal.stack_wholeClass
  obtain ⟨c, hc, -⟩ := exists_yield_of_readsAll hr
  rw [← bare_ofTokens tokens last, Script.bare, map_kind_taken_bare, List.append_nil] at hc
  exact ⟨c, more, hc⟩

end Grammar

end Jack
