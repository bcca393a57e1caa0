import Jack.Proofs.Parse.Prefix

/-!
# The nesting of actions

Two things are opened and closed by the actions of a script: nodes of the parse tree, and the
numbers of branches and loops, each of which is the number of two labels. Whatever is closed is the
innermost that is open, also where the script ends in the middle of a class. A goal may close what
was opened before it, so that what a goal comes to (`Goal.summary`) is a list of actions again; a
move leaves it as it is.
-/

namespace Jack

/-- What is open, innermost first. -/
structure Nesting where
  nodes : List Node
  /-- The branches and loops, each with whether its first label is still to come. -/
  labels : List Bool

namespace Nesting

/-- Nothing is open. -/
def closed : Nesting := ⟨[], []⟩

/-- What is open after an action, if it fits to what is open before. -/
def next? (s : Nesting) : Action → Option Nesting
  | .openNode node => some { s with nodes := node :: s.nodes }
  | .closeNode node =>
    if s.nodes.head? = some node then some { s with nodes := s.nodes.tail } else none
  | .openLabels => some { s with labels := true :: s.labels }
  | .branchElse | .loopTop =>
    if s.labels.head? = some true then some { s with labels := false :: s.labels.tail } else none
  | .branchEnd | .loopEnd =>
    if s.labels.head? = some false then some { s with labels := s.labels.tail } else none
  | .emit (.label _) => none
  | _ => some s

/-- What is open after actions, if each fits to what is open before it. -/
def run? (s : Nesting) : List Action → Option Nesting
  | [] => some s
  | a :: as => (s.next? a).bind (·.run? as)

/-- The nesting with nodes opened in it. -/
def within (s : Nesting) (nodes : List Node) : Nesting := { s with nodes := nodes ++ s.nodes }

variable {s t u : Nesting} {as bs : List Action}

/-- Actions in two parts run one part after the other. -/
lemma run?_append : s.run? (as ++ bs) = (s.run? as).bind (·.run? bs) := by
  induction as generalizing s with
  | nil => rfl
  | cons a as ih =>
    rw [List.cons_append, run?, run?, Option.bind_assoc]
    congr
    funext t
    exact ih

/-- Where two parts run, the first leads to where the second runs. -/
lemma run?_append_eq_some (h : s.run? (as ++ bs) = some u) :
    ∃ t, s.run? as = some t ∧ t.run? bs = some u :=
  Option.bind_eq_some_iff.1 (run?_append.symm.trans h)

/-- Closing a node undoes its opening. -/
lemma next?_closeNode {node : Node} (h : s.next? (.closeNode node) = some t) :
    s = t.within [node] := by
  obtain ⟨nodes, labels⟩ := s
  rw [next?] at h
  split at h
  · next hn =>
    cases h
    cases nodes with
    | nil => cases hn
    | cons inner nodes =>
      cases hn
      rfl
  · cases h

/-- Nodes are closed where they are open. -/
lemma eq_within_of_run? {nodes : List Node} (h : s.run? (nodes.map .closeNode) = some t) :
    s = t.within nodes := by
  induction nodes generalizing s with
  | nil => exact Option.some.inj h
  | cons node nodes ih =>
    obtain ⟨v, hv, hr⟩ := Option.bind_eq_some_iff.1 h
    obtain rfl := ih hr
    exact next?_closeNode hv

end Nesting

/-- The nodes that a goal closes besides those it opens. -/
def Goal.closing : Goal → List Node
  | .classVarDecs | .subroutineDecs => [.wholeClass]
  | .statements .inner _ => [.statements]
  | .statements (.body _ _) _ => [.statements, .subroutineBody]
  | .operators => [.expression]
  | .arguments _ | .argument _ _ | .moreArguments _ _ => [.expressionList]
  | _ => []

/-- What a goal comes to once it is met, as far as the nesting goes. -/
def Goal.summary : Goal → List Action
  | .perform actions => actions
  | g => g.closing.map .closeNode

/-- A move leads to where its goal leads, or stops on the way. -/
def Move.Leads (s t : Nesting) : Move → Prop
  | .skip actions goals | .take actions goals =>
    s.run? (actions ++ goals.flatMap Goal.summary) = some t
  | .reject actions _ => (s.run? actions).isSome

/-- The code of a word opens and closes nothing. -/
lemma Move.run?_termKeyword {k : Keyword} {here : Span} {code : List Action}
    (h : Move.termKeyword k here = some code) (s : Nesting) : s.run? code = some s := by
  cases k <;> cases h <;> rfl

/-- The goals behind a symbol in front of a term come to nothing open. -/
lemma Move.run?_termSymbol {c : Char} {goals : List Goal} (h : Move.termSymbol c = some goals)
    (s : Nesting) : s.run? (goals.flatMap Goal.summary) = some s := by
  rw [Move.termSymbol] at h
  split at h
  · cases h
    rfl
  · obtain ⟨op, _, rfl⟩ := Option.map_eq_some_iff.1 h
    rfl

namespace Goal

/-- A term leaves open what was open. -/
lemma leads_term (s : Nesting) (current : TokenKind) (here : Span) :
    (Move.term current here).Leads s s := by
  have hclose : (s.within [.term]).run? ([.perform [.closeNode .term]].flatMap summary) = some s :=
    rfl
  cases current with
  | keyword k =>
    simp only [Move.term]
    split
    · next code hc =>
      show (s.within [.term]).run? (code ++ _) = some s
      rw [Nesting.run?_append, Move.run?_termKeyword hc, Option.bind_some, hclose]
    · rfl
  | symbol c =>
    simp only [Move.term]
    split
    · next goals hc =>
      show (s.within [.term]).run? ((goals ++ _).flatMap summary) = some s
      rw [List.flatMap_append, Nesting.run?_append, Move.run?_termSymbol hc, Option.bind_some,
        hclose]
    · rfl
  | _ => rfl

/-- A move comes to the same as its goal. -/
lemma leads_predict {g : Goal} {s t : Nesting} (h : s.run? g.summary = some t)
    (current : TokenKind) (here : Span) : (g.predict current here).Leads s t := by
  cases g with
  | perform actions =>
    show s.run? (actions ++ []) = some t
    rw [List.append_nil]
    exact h
  | term =>
    cases h
    exact leads_term s current here
  | statements block returned =>
    cases block <;>
    · obtain rfl := Nesting.eq_within_of_run? h
      simp only [Goal.predict, Move.statements, Move.closeBlock]
      repeat' split
      all_goals rfl
  | _ =>
    obtain rfl := Nesting.eq_within_of_run? h
    simp only [Goal.predict, Move.symbol, Move.keyword, Move.identifier, Move.type,
      Move.classVarDecs, Move.subroutineDecs, Move.endOfInput, Move.resultType, Move.parameters,
      Move.afterComma, Move.varDecs, Move.letRest, Move.elsePart, Move.returnValue,
      Move.operators, Move.afterName, Move.callRest, Move.closeArguments, Move.arguments,
      Move.argument, Move.moreArguments]
    repeat' split
    all_goals rfl

end Goal

namespace Script

/-- After the actions of a move, its goals lead to where the goal led. -/
lemma exists_run?_resume {actions : List Action} {new goals : List Goal} {s t u : Nesting}
    (hm : s.run? (actions ++ new.flatMap Goal.summary) = some t)
    (hg : t.run? (goals.flatMap Goal.summary) = some u) :
    ∃ v, s.run? actions = some v ∧ v.run? ((new ++ goals).flatMap Goal.summary) = some u := by
  obtain ⟨v, ha, hn⟩ := Nesting.run?_append_eq_some hm
  refine ⟨v, ha, ?_⟩
  rw [List.flatMap_append, Nesting.run?_append, hn]
  exact hg

/-- Goals that fit to what is open make a script that does. -/
lemma exists_run?_meetOnto (tokens : List Token) (last : Span) {goals : List Goal} {s t : Nesting}
    (h : s.run? (goals.flatMap Goal.summary) = some t) :
    ∃ u, s.run? (meetOnto tokens last goals #[]).actions = some u := by
  induction tokens, last, goals using meetOnto_induction generalizing s with
  | nil tokens last => exact ⟨s, by simp [Nesting.run?]⟩
  | skip tokens last goal goals actions new hp ih =>
    obtain ⟨v, hg, hgs⟩ := Nesting.run?_append_eq_some h
    have hm := Goal.leads_predict hg (currentKind tokens) (currentSpan last tokens)
    rw [hp] at hm
    obtain ⟨w, ha, hn⟩ := exists_run?_resume hm hgs
    obtain ⟨u, hu⟩ := ih hn
    refine ⟨u, ?_⟩
    rw [meetOnto_skip hp, after, Nesting.run?_append, ha]
    exact hu
  | take token rest last goal goals actions new hp ih =>
    obtain ⟨v, hg, hgs⟩ := Nesting.run?_append_eq_some h
    have hm :=
      Goal.leads_predict hg (currentKind (token :: rest)) (currentSpan last (token :: rest))
    rw [hp] at hm
    obtain ⟨w, ha, hn⟩ := exists_run?_resume hm hgs
    obtain ⟨u, hu⟩ := ih hn
    refine ⟨u, ?_⟩
    -- Taking the token changes nothing that is open.
    rw [meetOnto_take hp, after, List.append_assoc, Nesting.run?_append, ha]
    exact hu
  | reject tokens last goal goals actions expected hp =>
    obtain ⟨v, hg, -⟩ := Nesting.run?_append_eq_some h
    have hm := Goal.leads_predict hg (currentKind tokens) (currentSpan last tokens)
    rw [hp] at hm
    obtain ⟨u, hu⟩ := Option.isSome_iff_exists.1 hm
    refine ⟨u, ?_⟩
    rw [meetOnto_reject hp]
    exact hu

/-- The script of a class closes nothing but what is open. -/
lemma exists_run?_ofTokens (tokens : List Token) (last : Span) (s : Nesting) :
    ∃ u, s.run? (ofTokens tokens last).actions = some u :=
  exists_run?_meetOnto tokens last (t := s) rfl

end Script

end Jack
