import Jack.Proofs.Parse.Kinds
import Jack.Proofs.Grammar.Tree

/-!
# Derivations behind a script

Where following the grammar comes to an end without a failure, the tokens taken are the yield of a
derivation. `Reads` says for each goal which tokens it stands for. A move keeps this, with one lemma
for each production that it can be made for (`reads_of_skip`, `reads_of_take`), and so does the way
to the end of a script.
-/

namespace Jack.Grammar

open Script

/-- The rest of an assignment after its variable, in front of `rest`. -/
def ReadsLet (ks rest : List TokenKind) : Prop :=
  (∃ value : Expr, ks = .symbol '=' :: (value.yield ++ .symbol ';' :: rest)) ∨
    ∃ index value : Expr, ks = .symbol '[' :: (index.yield ++ .symbol ']' :: .symbol '=' ::
      (value.yield ++ .symbol ';' :: rest))

/-- The tokens `ks` start with what a goal stands for, in front of `rest`. -/
def Reads (ks rest : List TokenKind) : Goal → Prop
  | .perform _ => ks = rest
  | .symbol c => ks = .symbol c :: rest
  | .keyword k => ks = .keyword k :: rest
  | .className => ∃ name, ks = .identifier name :: rest
  | .classVarDecs => ∃ (vars : List ClassVarDec) (subs : List Subroutine),
    ks = vars.flatMap ClassVarDec.yield ++ (subs.flatMap Subroutine.yield ++ .symbol '}' :: rest) ∧
      current rest = .eof
  | .subroutineDecs => ∃ subs : List Subroutine,
    ks = subs.flatMap Subroutine.yield ++ .symbol '}' :: rest ∧ current rest = .eof
  | .endOfInput => ks = rest ∧ current rest = .eof
  | .variables _ => ∃ n : Names, ks = n.yield ++ rest
  | .variable _ _ => ∃ name, ks = .identifier name :: rest
  | .moreVariables _ _ => ∃ names, ks = moreNames names ++ rest
  | .resultType => ∃ result, ks = resultToken result :: rest
  | .subroutineName _ => ∃ (name : String) (params : List Parameter) (locals : List Names)
      (body : Statements),
    ks = .identifier name :: .symbol '(' :: (parametersYield params ++ .symbol ')' ::
      .symbol '{' :: (locals.flatMap localsYield ++ (body.yield ++ .symbol '}' :: rest)))
  | .parameters => ∃ params, ks = parametersYield params ++ rest
  | .parameter => ∃ p : Parameter, ks = p.yield ++ rest
  | .moreParameters => ∃ params, ks = moreParameters params ++ rest
  | .varDecs => ∃ locals : List Names, ks = locals.flatMap localsYield ++ rest
  | .statements _ _ => ∃ ss : Statements, ks = ss.yield ++ .symbol '}' :: rest
  | .letTarget => ∃ name mid, ks = .identifier name :: mid ∧ ReadsLet mid rest
  | .letRest _ _ => ReadsLet ks rest
  | .elsePart => ks = rest ∨
    ∃ ss : Statements, ks = .keyword .elseKw :: .symbol '{' :: (ss.yield ++ .symbol '}' :: rest)
  | .returnValue => ∃ value, ks = valueYield value ++ rest
  | .expression => ∃ e : Expr, ks = e.yield ++ rest
  | .operators => ∃ r : Tail, ks = r.yield ++ rest
  | .term => ∃ t : Term, ks = t.yield ++ rest
  | .afterName name _ => ∃ t : Term, .identifier name :: ks = t.yield ++ rest
  | .calledName => ∃ (callee : Callee) (args : Args),
    ks = calleeYield callee ++ .symbol '(' :: (args.yield ++ .symbol ')' :: rest)
  | .callRest name _ => ∃ (callee : Callee) (args : Args), calleeFirst callee = name ∧
    ks = calleeRest callee ++ .symbol '(' :: (args.yield ++ .symbol ')' :: rest)
  | .member _ _ => ∃ (name : String) (args : Args),
    ks = .identifier name :: .symbol '(' :: (args.yield ++ .symbol ')' :: rest)
  | .arguments _ => ∃ args : Args, ks = args.yield ++ .symbol ')' :: rest
  | .argument _ _ => ∃ (first : Expr) (more : Args),
    ks = first.yield ++ (more.more ++ .symbol ')' :: rest)
  | .moreArguments _ _ => ∃ args : Args, ks = args.more ++ .symbol ')' :: rest

/-- The tokens `ks` start with what goals stand for one after another, in front of `rest`. -/
def ReadsAll (ks rest : List TokenKind) : List Goal → Prop
  | [] => ks = rest
  | g :: gs => ∃ mid, Reads ks mid g ∧ ReadsAll mid rest gs

/-- Two lists of goals are read one behind the other. -/
lemma readsAll_append {gs hs : List Goal} {ks rest : List TokenKind} :
    ReadsAll ks rest (gs ++ hs) ↔ ∃ mid, ReadsAll ks mid gs ∧ ReadsAll mid rest hs := by
  induction gs generalizing ks with
  | nil => simp [ReadsAll]
  | cons g gs ih =>
    simp only [List.cons_append, ReadsAll, ih]
    constructor
    · rintro ⟨m, hg, mid, hgs, hhs⟩
      exact ⟨mid, ⟨m, hg, hgs⟩, hhs⟩
    · rintro ⟨mid, ⟨m, hg, hgs⟩, hhs⟩
      exact ⟨m, hg, mid, hgs, hhs⟩

/-- A token with the text of a type is the token of a type of the grammar. -/
lemma typeName?_eq_some {k : TokenKind} {text : String} (h : k.typeName? = some text) :
    ∃ t : TypeName, t.token = k := by
  unfold TokenKind.typeName? at h
  split at h
  · exact ⟨.int, rfl⟩
  · exact ⟨.char, rfl⟩
  · exact ⟨.boolean, rfl⟩
  · next name => exact ⟨.named name, rfl⟩
  · cases h

/-- A keyword that starts a subroutine of some kind is the keyword of that kind. -/
lemma kindKeyword_of_ofKeyword? {w : Keyword} {kind : SubroutineKind}
    (h : SubroutineKind.ofKeyword? w = some kind) : kindKeyword kind = w := by
  cases w <;> cases h <;> rfl

/-- A symbol the engine takes for a binary operator is one of the grammar. -/
lemma ofSymbol?_eq_some {c : Char} {op : BinaryOp} (h : BinaryOp.ofSymbol? c = some op) :
    ∃ o : Operator, o.symbol = c := by
  unfold BinaryOp.ofSymbol? at h
  repeat' split at h
  all_goals cases h
  · exact ⟨.plus, by simp_all [Operator.symbol]⟩
  · exact ⟨.minus, by simp_all [Operator.symbol]⟩
  · exact ⟨.and, by simp_all [Operator.symbol]⟩
  · exact ⟨.or, by simp_all [Operator.symbol]⟩
  · exact ⟨.less, by simp_all [Operator.symbol]⟩
  · exact ⟨.greater, by simp_all [Operator.symbol]⟩
  · exact ⟨.equal, by simp_all [Operator.symbol]⟩
  · exact ⟨.times, by simp_all [Operator.symbol]⟩
  · exact ⟨.divide, by simp_all [Operator.symbol]⟩

/-- A symbol the engine takes for a unary operator is one of the grammar. -/
lemma unaryOp?_eq_some {c : Char} {op : Vm.Op} (h : unaryOp? c = some op) :
    ∃ o : UnaryOp, o.symbol = c := by
  unfold unaryOp? at h
  repeat' split at h
  all_goals cases h
  · exact ⟨.negate, by simp_all [UnaryOp.symbol]⟩
  · exact ⟨.complement, by simp_all [UnaryOp.symbol]⟩
  · exact ⟨.shiftLeft, by simp_all [UnaryOp.symbol]⟩
  · exact ⟨.shiftRight, by simp_all [UnaryOp.symbol]⟩

section

/-! ### One goal, met without a token or by one -/

variable {k : TokenKind} {ks rest : List TokenKind} {actions : List Action} {new : List Goal}

/-- Without a declaration the subroutines follow. -/
lemma reads_classVarDecs_of_skip
    (h : Goal.classVarDecs.predict k nowhere = .skip actions new)
    (hr : ReadsAll ks rest new) : Reads ks rest .classVarDecs := by
  simp only [Goal.predict, Move.classVarDecs] at h
  split at h <;> cases h
  obtain ⟨_, ⟨subs, hs, he⟩, rfl⟩ := hr
  exact ⟨[], subs, hs, he⟩

/-- The end of the input is read as nothing. -/
lemma reads_endOfInput_of_skip
    (h : Goal.endOfInput.predict k nowhere = .skip actions new)
    (hk : current ks = .eof)
    (hr : ReadsAll ks rest new) : Reads ks rest .endOfInput := by
  simp only [Goal.predict, Move.endOfInput] at h
  split at h <;> cases h
  obtain rfl : ks = rest := hr
  exact ⟨rfl, hk⟩

/-- Without a comma there is no further name. -/
lemma reads_moreVariables_of_skip {type : String} {kind : SymbolKind}
    (h : (Goal.moreVariables type kind).predict k nowhere = .skip actions new)
    (hr : ReadsAll ks rest new) : Reads ks rest (.moreVariables type kind) := by
  simp only [Goal.predict, Move.afterComma] at h
  split at h <;> cases h
  exact ⟨[], hr⟩

/-- There are no parameters before a parenthesis, or else a first one. -/
lemma reads_parameters_of_skip
    (h : Goal.parameters.predict k nowhere = .skip actions new)
    (hr : ReadsAll ks rest new) : Reads ks rest .parameters := by
  simp only [Goal.predict, Move.parameters] at h
  split at h <;> cases h
  · exact ⟨[], hr⟩
  · obtain ⟨_, ⟨p, rfl⟩, _, ⟨ps, rfl⟩, rfl⟩ := hr
    exact ⟨p :: ps, by simp [parametersYield]⟩

/-- Without a comma there is no further parameter. -/
lemma reads_moreParameters_of_skip
    (h : Goal.moreParameters.predict k nowhere = .skip actions new)
    (hr : ReadsAll ks rest new) : Reads ks rest .moreParameters := by
  simp only [Goal.predict, Move.afterComma] at h
  split at h <;> cases h
  exact ⟨[], hr⟩

/-- Without `var` there are no further locals. -/
lemma reads_varDecs_of_skip
    (h : Goal.varDecs.predict k nowhere = .skip actions new)
    (hr : ReadsAll ks rest new) : Reads ks rest .varDecs := by
  simp only [Goal.predict, Move.varDecs] at h
  split at h <;> cases h
  exact ⟨[], hr⟩

/-- Without a bracket a variable is assigned to. -/
lemma reads_letRest_of_skip {name : String} {span : Span}
    (h : (Goal.letRest name span).predict k nowhere = .skip actions new)
    (hr : ReadsAll ks rest new) : Reads ks rest (.letRest name span) := by
  simp only [Goal.predict, Move.letRest] at h
  split at h <;> cases h
  obtain ⟨_, rfl, _, ⟨value, rfl⟩, _, rfl, _, rfl, rfl⟩ := hr
  exact .inl ⟨value, rfl⟩

/-- Without `else` there is no second arm. -/
lemma reads_elsePart_of_skip
    (h : Goal.elsePart.predict k nowhere = .skip actions new)
    (hr : ReadsAll ks rest new) : Reads ks rest .elsePart := by
  simp only [Goal.predict, Move.elsePart] at h
  split at h <;> cases h
  exact .inl hr

/-- Nothing is returned before a semicolon, or else the value of an expression. -/
lemma reads_returnValue_of_skip
    (h : Goal.returnValue.predict k nowhere = .skip actions new)
    (hr : ReadsAll ks rest new) : Reads ks rest .returnValue := by
  simp only [Goal.predict, Move.returnValue] at h
  split at h <;> cases h
  · exact ⟨none, hr⟩
  · obtain ⟨_, ⟨value, rfl⟩, rfl⟩ := hr
    exact ⟨some value, rfl⟩

/-- An expression is a term and what follows it. -/
lemma reads_expression_of_skip
    (h : Goal.expression.predict k nowhere = .skip actions new)
    (hr : ReadsAll ks rest new) : Reads ks rest .expression := by
  cases h
  obtain ⟨_, ⟨first, rfl⟩, _, ⟨more, rfl⟩, rfl⟩ := hr
  exact ⟨.mk first more, by simp [Expr.yield]⟩

/-- Without an operator the expression ends. -/
lemma reads_operators_of_skip
    (h : Goal.operators.predict k nowhere = .skip actions new)
    (hr : ReadsAll ks rest new) : Reads ks rest .operators := by
  simp only [Goal.predict, Move.operators] at h
  split at h
  · split at h <;> cases h
    exact ⟨.nil, hr⟩
  · cases h
    exact ⟨.nil, hr⟩

/-- A name without a bracket starts a call, or it is a variable. -/
lemma reads_afterName_of_skip {name : String} {span : Span}
    (h : (Goal.afterName name span).predict k nowhere = .skip actions new)
    (hr : ReadsAll ks rest new) : Reads ks rest (.afterName name span) := by
  simp only [Goal.predict, Move.afterName] at h
  split at h
  · cases h
  · split at h <;> cases h
    · obtain ⟨_, ⟨callee, args, rfl, rfl⟩, rfl⟩ := hr
      exact ⟨.call callee args, by simp [Term.yield, calleeYield]⟩
    · cases hr
      exact ⟨.var name, rfl⟩

/-- Without a dot a subroutine of the class is called. -/
lemma reads_callRest_of_skip {name : String} {span : Span}
    (h : (Goal.callRest name span).predict k nowhere = .skip actions new)
    (hr : ReadsAll ks rest new) : Reads ks rest (.callRest name span) := by
  simp only [Goal.predict, Move.callRest] at h
  split at h <;> cases h
  obtain ⟨_, rfl, _, rfl, _, rfl, _, ⟨args, rfl⟩, rfl⟩ := hr
  exact ⟨.own name, args, rfl, rfl⟩

/-- Without a parenthesis there is a first argument. -/
lemma reads_arguments_of_skip {callee : Jack.Callee}
    (h : (Goal.arguments callee).predict k nowhere = .skip actions new)
    (hr : ReadsAll ks rest new) : Reads ks rest (.arguments callee) := by
  simp only [Goal.predict, Move.arguments, Move.closeArguments] at h
  split at h
  · cases h
  · cases h
    obtain ⟨_, ⟨first, more, rfl⟩, rfl⟩ := hr
    exact ⟨.cons first more, by simp [Args.yield]⟩

/-- An argument is an expression and the rest of the arguments. -/
lemma reads_argument_of_skip {callee : Jack.Callee} {count : Nat}
    (h : (Goal.argument callee count).predict k nowhere = .skip actions new)
    (hr : ReadsAll ks rest new) : Reads ks rest (.argument callee count) := by
  cases h
  obtain ⟨_, ⟨first, rfl⟩, _, rfl, _, ⟨more, rfl⟩, rfl⟩ := hr
  exact ⟨first, more, rfl⟩

/-- What a goal met without a token goes on with reads what the goal reads. The token that the goal
has looked at need not be the one that is read. -/
lemma reads_of_skip {g : Goal} (h : g.predict k nowhere = .skip actions new)
    (hk : g = .endOfInput → current ks = .eof) (hr : ReadsAll ks rest new) : Reads ks rest g := by
  cases g with
  | perform as => cases h; exact hr
  | classVarDecs => exact reads_classVarDecs_of_skip h hr
  | endOfInput => exact reads_endOfInput_of_skip h (hk rfl) hr
  | moreVariables type kind => exact reads_moreVariables_of_skip h hr
  | parameters => exact reads_parameters_of_skip h hr
  | moreParameters => exact reads_moreParameters_of_skip h hr
  | varDecs => exact reads_varDecs_of_skip h hr
  | letRest name span => exact reads_letRest_of_skip h hr
  | elsePart => exact reads_elsePart_of_skip h hr
  | returnValue => exact reads_returnValue_of_skip h hr
  | expression => exact reads_expression_of_skip h hr
  | operators => exact reads_operators_of_skip h hr
  | afterName name span => exact reads_afterName_of_skip h hr
  | callRest name span => exact reads_callRest_of_skip h hr
  | arguments callee => exact reads_arguments_of_skip h hr
  | argument callee count => exact reads_argument_of_skip h hr
  | _ =>
    -- The other goals take a token or fail.
    simp only [Goal.predict, Move.symbol, Move.keyword, Move.identifier, Move.type,
      Move.subroutineDecs, Move.resultType, Move.closeBlock, Move.statements, Move.term,
      Move.closeArguments, Move.moreArguments] at h
    repeat' split at h
    all_goals cases h

/-- A keyword starts one more statement, and a closing brace ends the list of them. -/
lemma reads_statements_of_take {b : Jack.Block} {returned : Bool}
    (h : (Goal.statements b returned).predict k nowhere = .take actions new)
    (hr : ReadsAll ks rest new) : Reads (k :: ks) rest (.statements b returned) := by
  simp only [Goal.predict, Move.statements] at h
  split at h
  · cases h
    obtain ⟨_, ⟨name, _, rfl, hl⟩, _, rfl, _, ⟨ss, rfl⟩, rfl⟩ := hr
    obtain ⟨value, rfl⟩ | ⟨index, value, rfl⟩ := hl
    · exact ⟨.cons (.assign name value) ss, by simp [Statements.yield, Statement.yield]⟩
    · exact ⟨.cons (.assignElement name index value) ss,
        by simp [Statements.yield, Statement.yield]⟩
  · cases h
    obtain ⟨_, rfl, _, ⟨condition, rfl⟩, _, rfl, _, rfl, _, rfl, _, rfl, _, ⟨yes, rfl⟩, _, rfl, _,
      he, _, rfl, _, ⟨ss, rfl⟩, rfl⟩ := hr
    -- The goal for the second arm reads nothing, or `else` and a block.
    obtain rfl | ⟨no, rfl⟩ := he
    · exact ⟨.cons (.ifThen condition yes) ss, by simp [Statements.yield, Statement.yield]⟩
    · exact ⟨.cons (.ifElse condition yes no) ss, by simp [Statements.yield, Statement.yield]⟩
  · cases h
    obtain ⟨_, rfl, _, rfl, _, ⟨condition, rfl⟩, _, rfl, _, rfl, _, rfl, _, rfl, _, ⟨body, rfl⟩, _,
      rfl, _, ⟨ss, rfl⟩, rfl⟩ := hr
    exact ⟨.cons (.loop condition body) ss, by simp [Statements.yield, Statement.yield]⟩
  · cases h
    obtain ⟨_, ⟨callee, args, rfl⟩, _, rfl, _, rfl, _, ⟨ss, rfl⟩, rfl⟩ := hr
    exact ⟨.cons (.invoke callee args) ss, by simp [Statements.yield, Statement.yield]⟩
  · cases h
    obtain ⟨_, ⟨value, rfl⟩, _, rfl, _, rfl, _, ⟨ss, rfl⟩, rfl⟩ := hr
    exact ⟨.cons (.giveBack value) ss, by simp [Statements.yield, Statement.yield]⟩
  · simp only [Move.closeBlock] at h
    refine ⟨.nil, ?_⟩
    cases b with
    | inner => cases h; cases hr; rfl
    | body kind name =>
      simp only at h
      split at h
      · cases h; obtain ⟨_, rfl, rfl⟩ := hr; rfl
      · split at h <;> cases h <;> obtain ⟨_, rfl, rfl⟩ := hr <;> rfl
  · cases h

/-- A token starts a term according to its kind. -/
lemma reads_term_of_take (h : Goal.term.predict k nowhere = .take actions new)
    (hr : ReadsAll ks rest new) : Reads (k :: ks) rest .term := by
  cases k with
  | integer value =>
    cases h
    obtain ⟨_, rfl, _, rfl, rfl⟩ := hr
    exact ⟨.integer value, rfl⟩
  | string body =>
    cases h
    obtain ⟨_, rfl, _, rfl, rfl⟩ := hr
    exact ⟨.string body, rfl⟩
  | identifier name =>
    cases h
    -- The goal after the name has the whole term, name included.
    obtain ⟨_, ⟨t, ht⟩, _, rfl, rfl⟩ := hr
    exact ⟨t, ht⟩
  | keyword w =>
    simp only [Goal.predict, Move.term, Move.termKeyword] at h
    cases w <;> cases h <;> obtain ⟨_, rfl, rfl⟩ := hr
    · exact ⟨.word .trueWord, rfl⟩
    · exact ⟨.word .falseWord, rfl⟩
    · exact ⟨.word .nullWord, rfl⟩
    · exact ⟨.word .thisWord, rfl⟩
  | symbol c =>
    simp only [Goal.predict, Move.term, Move.termSymbol] at h
    split at h <;> cases h
    next goals hg =>
      split at hg
      · next hc =>
        subst hc
        cases hg
        obtain ⟨_, ⟨inner, rfl⟩, _, rfl, _, rfl, rfl⟩ := hr
        exact ⟨.group inner, by simp [Term.yield]⟩
      · obtain ⟨op, ho, rfl⟩ := Option.map_eq_some_iff.1 hg
        obtain ⟨o, rfl⟩ := unaryOp?_eq_some ho
        obtain ⟨_, ⟨operand, rfl⟩, _, rfl, _, rfl, rfl⟩ := hr
        exact ⟨.unary o operand, rfl⟩
  | eof => cases h
  | error e => cases h

/-- A symbol is read as itself. -/
lemma reads_symbol_of_take {c : Char}
    (h : (Goal.symbol c).predict k nowhere = .take actions new)
    (hr : ReadsAll ks rest new) : Reads (k :: ks) rest (.symbol c) := by
  simp only [Goal.predict, Move.symbol] at h
  split at h <;> cases h
  next hk => subst hk; cases hr; rfl

/-- A keyword is read as itself. -/
lemma reads_keyword_of_take {w : Keyword}
    (h : (Goal.keyword w).predict k nowhere = .take actions new)
    (hr : ReadsAll ks rest new) : Reads (k :: ks) rest (.keyword w) := by
  simp only [Goal.predict, Move.keyword] at h
  split at h <;> cases h
  next hk => subst hk; cases hr; rfl

/-- An identifier is read as the name of the class. -/
lemma reads_className_of_take
    (h : Goal.className.predict k nowhere = .take actions new)
    (hr : ReadsAll ks rest new) : Reads (k :: ks) rest .className := by
  simp only [Goal.predict, Move.identifier] at h
  split at h <;> cases h
  next name =>
    obtain ⟨_, rfl, rfl⟩ := hr
    exact ⟨name, rfl⟩

/-- `static` or `field` starts one more declaration of the class. -/
lemma reads_classVarDecs_of_take
    (h : Goal.classVarDecs.predict k nowhere = .take actions new)
    (hr : ReadsAll ks rest new) : Reads (k :: ks) rest .classVarDecs := by
  simp only [Goal.predict, Move.classVarDecs] at h
  split at h <;> cases h
  all_goals obtain ⟨_, ⟨n, rfl⟩, _, rfl, _, rfl, _, ⟨vars, subs, rfl, he⟩, rfl⟩ := hr
  · exact ⟨⟨.static, n⟩ :: vars, subs, by simp [ClassVarDec.yield, Storage.keyword], he⟩
  · exact ⟨⟨.field, n⟩ :: vars, subs, by simp [ClassVarDec.yield, Storage.keyword], he⟩

/-- A keyword for a kind starts one more subroutine, and a closing brace ends the class. -/
lemma reads_subroutineDecs_of_take
    (h : Goal.subroutineDecs.predict k nowhere = .take actions new)
    (hr : ReadsAll ks rest new) : Reads (k :: ks) rest .subroutineDecs := by
  simp only [Goal.predict, Move.subroutineDecs] at h
  split at h
  · split at h
    · next kind hk =>
      cases h
      obtain ⟨_, ⟨result, rfl⟩, _, ⟨name, params, locals, body, rfl⟩, _, rfl, _,
        ⟨subs, rfl, he⟩, rfl⟩ := hr
      have hw := kindKeyword_of_ofKeyword? hk
      refine ⟨⟨kind, result, name, params, locals, body⟩ :: subs, ?_, he⟩
      simp [Subroutine.yield, hw]
    -- A word that starts no subroutine is not the closing brace either.
    · split at h <;> cases h
      next hw => cases hw
  · split at h <;> cases h
    next hk =>
      subst hk
      obtain ⟨_, rfl, _, ⟨rfl, he⟩, rfl⟩ := hr
      exact ⟨[], rfl, he⟩

/-- A type starts a list of names declared with it. -/
lemma reads_variables_of_take {kind : SymbolKind}
    (h : (Goal.«variables» kind).predict k nowhere = .take actions new)
    (hr : ReadsAll ks rest new) : Reads (k :: ks) rest (.«variables» kind) := by
  simp only [Goal.predict, Move.type] at h
  split at h <;> cases h
  next text ht =>
    obtain ⟨t, rfl⟩ := typeName?_eq_some ht
    obtain ⟨_, ⟨name, rfl⟩, _, ⟨names, rfl⟩, rfl⟩ := hr
    exact ⟨⟨t, name, names⟩, by simp [Names.yield]⟩

/-- An identifier is read as a declared name. -/
lemma reads_variable_of_take {type : String} {kind : SymbolKind}
    (h : (Goal.«variable» type kind).predict k nowhere = .take actions new)
    (hr : ReadsAll ks rest new) : Reads (k :: ks) rest (.«variable» type kind) := by
  simp only [Goal.predict, Move.identifier] at h
  split at h <;> cases h
  next name =>
    obtain ⟨_, rfl, rfl⟩ := hr
    exact ⟨name, rfl⟩

/-- A comma stands before one more name. -/
lemma reads_moreVariables_of_take {type : String} {kind : SymbolKind}
    (h : (Goal.moreVariables type kind).predict k nowhere = .take actions new)
    (hr : ReadsAll ks rest new) : Reads (k :: ks) rest (.moreVariables type kind) := by
  simp only [Goal.predict, Move.afterComma] at h
  split at h <;> cases h
  next hk =>
    subst hk
    obtain ⟨_, ⟨name, rfl⟩, _, ⟨names, rfl⟩, rfl⟩ := hr
    exact ⟨name :: names, by simp [moreNames]⟩

/-- `void` or a type is read as the type of a result. -/
lemma reads_resultType_of_take
    (h : Goal.resultType.predict k nowhere = .take actions new)
    (hr : ReadsAll ks rest new) : Reads (k :: ks) rest .resultType := by
  simp only [Goal.predict, Move.resultType, Move.type] at h
  split at h
  · next hk => subst hk; cases h; cases hr; exact ⟨none, rfl⟩
  · split at h <;> cases h
    next ht =>
      obtain ⟨t, rfl⟩ := typeName?_eq_some ht
      cases hr
      exact ⟨some t, rfl⟩

/-- An identifier is read as the name of a subroutine, and the rest of it follows. -/
lemma reads_subroutineName_of_take {kind : SubroutineKind}
    (h : (Goal.subroutineName kind).predict k nowhere = .take actions new)
    (hr : ReadsAll ks rest new) : Reads (k :: ks) rest (.subroutineName kind) := by
  simp only [Goal.predict, Move.identifier, Move.subroutineRest] at h
  split at h <;> cases h
  next name =>
    obtain ⟨_, rfl, _, rfl, _, rfl, _, ⟨params, rfl⟩, _, rfl, _, rfl, _, rfl, _, rfl, _,
      ⟨locals, rfl⟩, _, rfl, _, ⟨body, rfl⟩, rfl⟩ := hr
    exact ⟨name, params, locals, body, rfl⟩

/-- A type starts a parameter. -/
lemma reads_parameter_of_take
    (h : Goal.parameter.predict k nowhere = .take actions new)
    (hr : ReadsAll ks rest new) : Reads (k :: ks) rest .parameter := by
  simp only [Goal.predict, Move.type] at h
  split at h <;> cases h
  next text ht =>
    obtain ⟨t, rfl⟩ := typeName?_eq_some ht
    obtain ⟨_, ⟨name, rfl⟩, rfl⟩ := hr
    exact ⟨⟨t, name⟩, rfl⟩

/-- A comma stands before one more parameter. -/
lemma reads_moreParameters_of_take
    (h : Goal.moreParameters.predict k nowhere = .take actions new)
    (hr : ReadsAll ks rest new) : Reads (k :: ks) rest .moreParameters := by
  simp only [Goal.predict, Move.afterComma] at h
  split at h <;> cases h
  next hk =>
    subst hk
    obtain ⟨_, ⟨p, rfl⟩, _, ⟨ps, rfl⟩, rfl⟩ := hr
    exact ⟨p :: ps, by simp [moreParameters]⟩

/-- `var` starts one more declaration of locals. -/
lemma reads_varDecs_of_take
    (h : Goal.varDecs.predict k nowhere = .take actions new)
    (hr : ReadsAll ks rest new) : Reads (k :: ks) rest .varDecs := by
  simp only [Goal.predict, Move.varDecs] at h
  split at h <;> cases h
  next hk =>
    subst hk
    obtain ⟨_, ⟨n, rfl⟩, _, rfl, _, rfl, _, ⟨locals, rfl⟩, rfl⟩ := hr
    exact ⟨n :: locals, by simp [localsYield]⟩

/-- An identifier is read as the variable that is assigned to. -/
lemma reads_letTarget_of_take
    (h : Goal.letTarget.predict k nowhere = .take actions new)
    (hr : ReadsAll ks rest new) : Reads (k :: ks) rest .letTarget := by
  simp only [Goal.predict, Move.identifier] at h
  split at h <;> cases h
  next name =>
    obtain ⟨_, rfl, _, hl, rfl⟩ := hr
    exact ⟨name, _, rfl, hl⟩

/-- A bracket stands before the index of the element that is assigned to. -/
lemma reads_letRest_of_take {name : String} {span : Span}
    (h : (Goal.letRest name span).predict k nowhere = .take actions new)
    (hr : ReadsAll ks rest new) : Reads (k :: ks) rest (.letRest name span) := by
  simp only [Goal.predict, Move.letRest] at h
  split at h <;> cases h
  next hk =>
    subst hk
    obtain ⟨_, ⟨index, rfl⟩, _, rfl, _, rfl, _, rfl, _, ⟨value, rfl⟩, _, rfl, _, rfl, rfl⟩ := hr
    exact .inr ⟨index, value, rfl⟩

/-- `else` stands before the second arm. -/
lemma reads_elsePart_of_take
    (h : Goal.elsePart.predict k nowhere = .take actions new)
    (hr : ReadsAll ks rest new) : Reads (k :: ks) rest .elsePart := by
  simp only [Goal.predict, Move.elsePart] at h
  split at h <;> cases h
  next hk =>
    subst hk
    obtain ⟨_, rfl, _, rfl, _, ⟨ss, rfl⟩, rfl⟩ := hr
    exact .inr ⟨ss, rfl⟩

/-- An operator stands before one more operand. -/
lemma reads_operators_of_take
    (h : Goal.operators.predict k nowhere = .take actions new)
    (hr : ReadsAll ks rest new) : Reads (k :: ks) rest .operators := by
  simp only [Goal.predict, Move.operators] at h
  split at h
  · split at h <;> cases h
    next op ho =>
      obtain ⟨o, rfl⟩ := ofSymbol?_eq_some ho
      obtain ⟨_, ⟨operand, rfl⟩, _, rfl, _, ⟨more, rfl⟩, rfl⟩ := hr
      exact ⟨.cons o operand more, by simp [Tail.yield]⟩
  · cases h

/-- A bracket behind a name stands before the index of an element. -/
lemma reads_afterName_of_take {name : String} {span : Span}
    (h : (Goal.afterName name span).predict k nowhere = .take actions new)
    (hr : ReadsAll ks rest new) : Reads (k :: ks) rest (.afterName name span) := by
  simp only [Goal.predict, Move.afterName] at h
  split at h
  · next hk =>
    subst hk
    cases h
    obtain ⟨_, rfl, _, ⟨index, rfl⟩, _, rfl, _, rfl, rfl⟩ := hr
    exact ⟨.element name index, by simp [Term.yield]⟩
  · split at h <;> cases h

/-- An identifier is read as the first name of a call. -/
lemma reads_calledName_of_take
    (h : Goal.calledName.predict k nowhere = .take actions new)
    (hr : ReadsAll ks rest new) : Reads (k :: ks) rest .calledName := by
  simp only [Goal.predict, Move.identifier] at h
  split at h <;> cases h
  next name =>
    obtain ⟨_, ⟨callee, args, rfl, rfl⟩, rfl⟩ := hr
    exact ⟨callee, args, by simp [calleeYield]⟩

/-- A dot stands before the member that is called. -/
lemma reads_callRest_of_take {name : String} {span : Span}
    (h : (Goal.callRest name span).predict k nowhere = .take actions new)
    (hr : ReadsAll ks rest new) : Reads (k :: ks) rest (.callRest name span) := by
  simp only [Goal.predict, Move.callRest] at h
  split at h <;> cases h
  next hk =>
    subst hk
    obtain ⟨_, ⟨member, args, rfl⟩, rfl⟩ := hr
    exact ⟨.member name member, args, rfl, rfl⟩

/-- An identifier is read as a member, and its arguments follow. -/
lemma reads_member_of_take {owner : String} {span : Span}
    (h : (Goal.member owner span).predict k nowhere = .take actions new)
    (hr : ReadsAll ks rest new) : Reads (k :: ks) rest (.member owner span) := by
  simp only [Goal.predict, Move.identifier, Move.argumentList] at h
  split at h <;> cases h
  next name =>
    obtain ⟨_, rfl, _, rfl, _, rfl, _, ⟨args, rfl⟩, rfl⟩ := hr
    exact ⟨name, args, rfl⟩

/-- A closing parenthesis is read as the end of no arguments. -/
lemma reads_arguments_of_take {callee : Jack.Callee}
    (h : (Goal.arguments callee).predict k nowhere = .take actions new)
    (hr : ReadsAll ks rest new) : Reads (k :: ks) rest (.arguments callee) := by
  simp only [Goal.predict, Move.arguments, Move.closeArguments] at h
  split at h <;> cases h
  next hk =>
    subst hk
    obtain ⟨_, rfl, rfl⟩ := hr
    exact ⟨.nil, rfl⟩

/-- A comma stands before one more argument, and a closing parenthesis ends them. -/
lemma reads_moreArguments_of_take {callee : Jack.Callee} {count : Nat}
    (h : (Goal.moreArguments callee count).predict k nowhere = .take actions new)
    (hr : ReadsAll ks rest new) : Reads (k :: ks) rest (.moreArguments callee count) := by
  simp only [Goal.predict, Move.moreArguments, Move.closeArguments] at h
  split at h
  · next hk =>
    subst hk
    cases h
    obtain ⟨_, ⟨first, more, rfl⟩, rfl⟩ := hr
    exact ⟨.cons first more, by simp [Args.more]⟩
  · split at h <;> cases h
    next hk =>
      subst hk
      obtain ⟨_, rfl, rfl⟩ := hr
      exact ⟨.nil, rfl⟩

/-- What a goal met by a token goes on with reads, behind the token, what the goal reads. -/
lemma reads_of_take {g : Goal} (h : g.predict k nowhere = .take actions new)
    (hr : ReadsAll ks rest new) : Reads (k :: ks) rest g := by
  cases g with
  | symbol c => exact reads_symbol_of_take h hr
  | keyword w => exact reads_keyword_of_take h hr
  | className => exact reads_className_of_take h hr
  | classVarDecs => exact reads_classVarDecs_of_take h hr
  | subroutineDecs => exact reads_subroutineDecs_of_take h hr
  | «variables» kind => exact reads_variables_of_take h hr
  | «variable» type kind => exact reads_variable_of_take h hr
  | moreVariables type kind => exact reads_moreVariables_of_take h hr
  | resultType => exact reads_resultType_of_take h hr
  | subroutineName kind => exact reads_subroutineName_of_take h hr
  | parameter => exact reads_parameter_of_take h hr
  | moreParameters => exact reads_moreParameters_of_take h hr
  | varDecs => exact reads_varDecs_of_take h hr
  | statements b returned => exact reads_statements_of_take h hr
  | letTarget => exact reads_letTarget_of_take h hr
  | letRest name span => exact reads_letRest_of_take h hr
  | elsePart => exact reads_elsePart_of_take h hr
  | operators => exact reads_operators_of_take h hr
  | term => exact reads_term_of_take h hr
  | afterName name span => exact reads_afterName_of_take h hr
  | calledName => exact reads_calledName_of_take h hr
  | callRest name span => exact reads_callRest_of_take h hr
  | member owner span => exact reads_member_of_take h hr
  | arguments callee => exact reads_arguments_of_take h hr
  | moreArguments callee count => exact reads_moreArguments_of_take h hr
  | _ =>
    -- The other goals take no token.
    simp only [Goal.predict, Move.endOfInput, Move.parameters, Move.returnValue,
      Move.argument] at h
    repeat' split at h
    all_goals cases h

end

/-- The end of the input is met without a token only where it is the current token. -/
lemma eq_eof_of_endOfInput_skip {k : TokenKind} {actions : List Action} {new : List Goal}
    (h : Goal.endOfInput.predict k nowhere = .skip actions new) : k = .eof := by
  simp only [Goal.predict, Move.endOfInput] at h
  split at h
  · assumption
  · cases h

/-- Following the grammar without a failure reads what the goals stand for. -/
lemma readsAll_of_ofKinds {ks : List TokenKind} {goals : List Goal}
    (h : (ofKinds ks goals).failure = none) : ∃ rest, ReadsAll ks rest goals := by
  induction ks, goals using kinds_induction with
  | nil ks => exact ⟨ks, rfl⟩
  | skip ks goal goals actions new hp ih =>
    rw [ofKinds_cons, hp] at h
    obtain ⟨rest, hr⟩ := ih h
    -- The new goals read up to `mid`, where the goals left for later go on.
    obtain ⟨mid, hn, hg⟩ := readsAll_append.1 hr
    exact ⟨rest, mid, reads_of_skip hp (fun he => eq_eof_of_endOfInput_skip (he ▸ hp)) hn, hg⟩
  | take k ks goal goals actions new hp ih =>
    rw [ofKinds_cons, current_cons, hp] at h
    obtain ⟨rest, hr⟩ := ih h
    obtain ⟨mid, hn, hg⟩ := readsAll_append.1 hr
    exact ⟨rest, mid, reads_of_take hp hn, hg⟩
  | reject ks goal goals actions expected hp =>
    rw [ofKinds_cons, hp] at h
    cases h

/-- The goals of a class stand for its derivations in front of the end. -/
lemma exists_yield_of_readsAll {ks rest : List TokenKind} (h : ReadsAll ks rest Goal.wholeClass) :
    ∃ c : ClassDec, ks = c.yield ++ rest ∧ current rest = .eof := by
  obtain ⟨_, rfl, _, rfl, _, ⟨name, rfl⟩, _, rfl, _, ⟨vars, subs, rfl, he⟩, rfl⟩ := h
  exact ⟨⟨name, vars, subs⟩, by simp [ClassDec.yield], he⟩

/-- Tokens that are followed without a failure are the yield of a class in front of the end. -/
lemma exists_yield_of_ofKinds {ks : List TokenKind}
    (h : (ofKinds ks Goal.wholeClass).failure = none) :
    ∃ (c : ClassDec) (rest : List TokenKind), ks = c.yield ++ rest ∧ current rest = .eof := by
  obtain ⟨rest, hr⟩ := readsAll_of_ofKinds h
  obtain ⟨c, hc⟩ := exists_yield_of_readsAll hr
  exact ⟨c, rest, hc⟩

end Jack.Grammar
