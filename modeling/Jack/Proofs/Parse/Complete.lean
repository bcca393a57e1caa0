import Jack.Proofs.Grammar.Script

/-!
# Following the grammar over a derivation

The script of the yield of a derivation is the script of the derivation, whatever comes after it.
Where a nonterminal may go on, the next token has to be one that does not make it go on: a term is
not followed by an index or a call, an expression not by an operator either, and a branch without a
second arm not by `else`. These are `EndsTerm`, `EndsExpr` and `NoElse`.
-/

namespace Jack.Grammar

open Script

/-! ## Goals that one token meets -/

section
variable (ks : List TokenKind) (K : List Goal)

/-- Actions that a goal holds come before the rest. -/
@[simp] lemma ofKinds_perform (actions : List Action) :
    ofKinds ks (.perform actions :: K) = after actions (ofKinds ks K) := by
  simp [ofKinds_cons, Goal.predict, resume]

/-- An expected symbol is taken. -/
@[simp] lemma ofKinds_symbol (c : Char) :
    ofKinds (.symbol c :: ks) (.symbol c :: K) = after [take (.symbol c)] (ofKinds ks K) := by
  simp [ofKinds_cons, Goal.predict, Move.symbol, resume, take]

/-- An expected keyword is taken. -/
@[simp] lemma ofKinds_keyword (k : Keyword) :
    ofKinds (.keyword k :: ks) (.keyword k :: K) = after [take (.keyword k)] (ofKinds ks K) := by
  simp [ofKinds_cons, Goal.predict, Move.keyword, resume, take]

/-- An expression is a term and what follows it. -/
lemma ofKinds_expression :
    ofKinds ks (.expression :: K) =
      after [.openNode .expression] (ofKinds ks (.term :: .operators :: K)) := by
  simp [ofKinds_cons, Goal.predict, resume]

end

/-! ## What may follow -/

/-- No index and no call goes on from here. -/
def EndsTerm (ks : List TokenKind) : Prop :=
  current ks ≠ .symbol '[' ∧ current ks ≠ .symbol '(' ∧ current ks ≠ .symbol '.'

/-- No index, no call and no operator goes on from here. -/
def EndsExpr (ks : List TokenKind) : Prop :=
  EndsTerm ks ∧ ∀ c, current ks = .symbol c → BinaryOp.ofSymbol? c = none

/-- No second arm of a branch goes on from here. -/
def NoElse (ks : List TokenKind) : Prop := current ks ≠ .keyword .elseKw

/-- The tokens behind which an expression is complete. -/
lemma endsExpr_symbol {c : Char} (ks : List TokenKind)
    (h : c = ')' ∨ c = ']' ∨ c = ';' ∨ c = ',') : EndsExpr (.symbol c :: ks) := by
  obtain rfl | rfl | rfl | rfl := h <;>
    exact ⟨by simp [EndsTerm], by intro c hc; cases hc; rfl⟩

/-- The symbol of an operator is read as its meaning. -/
lemma Operator.ofSymbol?_symbol (op : Operator) :
    BinaryOp.ofSymbol? op.symbol = some op.meaning := by
  cases op <;> rfl

/-- What follows a term in an expression does not go on with it. -/
lemma Tail.endsTerm (r : Tail) {ks : List TokenKind} (h : EndsExpr ks) :
    EndsTerm (r.yield ++ ks) := by
  cases r with
  | nil => exact h.1
  | cons op operand rest => cases op <;> simp [Tail.yield, Operator.symbol, EndsTerm]

/-- An expression ends before further arguments, or before the parenthesis. -/
lemma Args.endsExpr_more (as : Args) (ks : List TokenKind) :
    EndsExpr (as.more ++ .symbol ')' :: ks) := by
  cases as with
  | nil => exact endsExpr_symbol ks (.inl rfl)
  | cons first rest =>
    simp only [Args.more, List.cons_append]
    exact endsExpr_symbol _ (by decide)

/-- A term does not start with what ends an expression. -/
lemma Term.current_yield (t : Term) (ks : List TokenKind) :
    current (t.yield ++ ks) ≠ .symbol ')' ∧ current (t.yield ++ ks) ≠ .symbol ';' := by
  cases t with
  | call callee args => simp [Term.yield, calleeYield]
  | unary op operand => cases op <;> simp [Term.yield, UnaryOp.symbol]
  | _ => simp [Term.yield]

/-- No expression starts with a closing parenthesis or a semicolon. -/
lemma Expr.current_yield (e : Expr) (ks : List TokenKind) :
    current (e.yield ++ ks) ≠ .symbol ')' ∧ current (e.yield ++ ks) ≠ .symbol ';' := by
  cases e with
  | mk first rest =>
    rw [Expr.yield, List.append_assoc]
    exact first.current_yield _

/-! ## Expressions -/

section
variable (ks : List TokenKind) (K : List Goal)

/-- A unary operator is followed by its operand and its operation. -/
lemma ofKinds_term_unary (op : UnaryOp) :
    ofKinds (.symbol op.symbol :: ks) (.term :: K) =
      after [.openNode .term, take (.symbol op.symbol)]
        (ofKinds ks (.term :: .perform [.emit (.arithmetic op.op)] ::
          .perform [.closeNode .term] :: K)) := by
  cases op <;> simp [ofKinds_cons ks, ofKinds_cons (.symbol _ :: ks), Goal.predict, Move.term,
    Move.termSymbol, unaryOp?, UnaryOp.symbol, UnaryOp.op, resume, take]

/-- What a term that starts with a name is depends on what follows the name. -/
lemma ofKinds_term_identifier (name : String) :
    ofKinds (.identifier name :: ks) (.term :: K) =
      after [.openNode .term, take (.identifier name)]
        (ofKinds ks (.afterName name nowhere :: .perform [.closeNode .term] :: K)) := by
  rw [ofKinds_cons]
  simp [Goal.predict, Move.term, resume, take]

/-- A word is a term of its own. -/
lemma ofKinds_term_word (w : TermWord) :
    ofKinds (.keyword w.keyword :: ks) (.term :: K) =
      after (.openNode .term :: (w.actions ++ [take (.keyword w.keyword), .closeNode .term]))
        (ofKinds ks K) := by
  rw [ofKinds_cons]
  cases w <;> simp [Goal.predict, Move.term, Move.termKeyword, TermWord.keyword,
    TermWord.actions, resume, take]

/-- An operator is followed by its operand, and operates behind it. -/
lemma ofKinds_operators_cons (op : Operator) :
    ofKinds (.symbol op.symbol :: ks) (.operators :: K) =
      after [take (.symbol op.symbol)]
        (ofKinds ks (.term :: .perform [.operate op.meaning] :: .operators :: K)) := by
  rw [ofKinds_cons]
  simp [Goal.predict, Move.operators, op.ofSymbol?_symbol, resume, take]

/-- Without an operator the expression ends. -/
lemma ofKinds_operators_nil {ks : List TokenKind} (h : EndsExpr ks) :
    ofKinds ks (.operators :: K) = after [.closeNode .expression] (ofKinds ks K) := by
  rw [ofKinds_cons]
  cases hc : current ks with
  | symbol c => simp [Goal.predict, Move.operators, h.2 c hc, resume]
  | _ => simp [Goal.predict, Move.operators, resume]

/-- After its first name a call passes its object and opens its arguments. -/
lemma ofKinds_callRest (callee : Callee) :
    ofKinds (calleeRest callee ++ .symbol '(' :: ks) (.callRest (calleeFirst callee) nowhere :: K) =
      after ((calleeRest callee).map take ++
        [.receiver callee nowhere, take (.symbol '('), .openNode .expressionList])
        (ofKinds ks (.arguments callee :: K)) := by
  cases callee with
  | own name =>
    rw [ofKinds_cons]
    simp [calleeRest, calleeFirst, Goal.predict, Move.callRest, Move.argumentList, resume]
  | member owner name =>
    rw [ofKinds_cons]
    simp only [calleeRest, calleeFirst, List.cons_append, List.nil_append, Goal.predict,
      Move.callRest, current_cons, resume, List.tail_cons, if_pos]
    rw [ofKinds_cons]
    simp [Goal.predict, Move.identifier, Move.argumentList, resume, take]

/-- A parenthesis or a dot behind a name makes it a call. -/
lemma ofKinds_afterName_call (callee : Callee) :
    ofKinds (calleeRest callee ++ .symbol '(' :: ks)
        (.afterName (calleeFirst callee) nowhere :: K) =
      ofKinds (calleeRest callee ++ .symbol '(' :: ks)
        (.callRest (calleeFirst callee) nowhere :: K) := by
  rw [ofKinds_cons]
  cases callee <;> simp [calleeRest, calleeFirst, Goal.predict, Move.afterName, resume]

/-- A bracket behind a name makes it an element of an array. -/
lemma ofKinds_afterName_element (name : String) :
    ofKinds (.symbol '[' :: ks) (.afterName name nowhere :: K) =
      after [take (.symbol '['), .require name nowhere]
        (ofKinds ks (.expression :: .symbol ']' ::
          .perform [.load name nowhere, .emit (.arithmetic .add), .emit (.pop .pointer 1),
            .emit (.push .thatCell 0)] :: K)) := by
  rw [ofKinds_cons]
  simp [Goal.predict, Move.afterName, resume, take]

/-- Any other token behind a name leaves it a variable. -/
lemma ofKinds_afterName_var {ks : List TokenKind} (h : EndsTerm ks) (name : String) :
    ofKinds ks (.afterName name nowhere :: K) = after [.load name nowhere] (ofKinds ks K) := by
  obtain ⟨h1, h2, h3⟩ := h
  rw [ofKinds_cons]
  simp [Goal.predict, Move.afterName, resume, h1, h2, h3]

/-- A parenthesis ends the arguments, and the call is made. -/
lemma ofKinds_moreArguments_nil (callee : Callee) (count : Nat) :
    ofKinds (.symbol ')' :: ks) (.moreArguments callee count :: K) =
      after [.closeNode .expressionList, take (.symbol ')'), .call callee count nowhere]
        (ofKinds ks K) := by
  rw [ofKinds_cons]
  simp [Goal.predict, Move.moreArguments, Move.closeArguments, resume, take]

/-- A comma is followed by one more argument. -/
lemma ofKinds_moreArguments_cons (callee : Callee) (count : Nat) :
    ofKinds (.symbol ',' :: ks) (.moreArguments callee count :: K) =
      after [take (.symbol ',')] (ofKinds ks (.argument callee count :: K)) := by
  rw [ofKinds_cons]
  simp [Goal.predict, Move.moreArguments, resume, take]

/-- A parenthesis at once is a call without arguments. -/
lemma ofKinds_arguments_nil (callee : Callee) :
    ofKinds (.symbol ')' :: ks) (.arguments callee :: K) =
      after [.closeNode .expressionList, take (.symbol ')'), .call callee 0 nowhere]
        (ofKinds ks K) := by
  rw [ofKinds_cons]
  simp [Goal.predict, Move.arguments, Move.closeArguments, resume, take]

/-- Any other token starts a first argument. -/
lemma ofKinds_arguments_cons {ks : List TokenKind} (h : current ks ≠ .symbol ')')
    (callee : Callee) :
    ofKinds ks (.arguments callee :: K) = ofKinds ks (.argument callee 0 :: K) := by
  rw [ofKinds_cons]
  simp [Goal.predict, Move.arguments, resume, h]

/-- An argument is an expression, which is counted. -/
lemma ofKinds_argument (callee : Callee) (count : Nat) :
    ofKinds ks (.argument callee count :: K) =
      ofKinds ks (.expression :: .perform [.countArgument (count + 1) nowhere] ::
        .moreArguments callee (count + 1) :: K) := by
  rw [ofKinds_cons]
  simp [Goal.predict, Move.argument, resume]

end

mutual

/-- The tokens of a term are followed by the script of the term. -/
lemma Term.ofKinds_yield (t : Term) {ks : List TokenKind} (h : EndsTerm ks) (K : List Goal) :
    ofKinds (t.yield ++ ks) (.term :: K) = after t.script (ofKinds ks K) := by
  cases t with
  | integer value =>
    simp [ofKinds_cons (.integer value :: ks), Term.yield, Term.script, Goal.predict, Move.term,
      resume, take]
  | string body =>
    simp [ofKinds_cons (.string body :: ks), Term.yield, Term.script, Goal.predict, Move.term,
      resume, take]
  | word w => exact ofKinds_term_word ks K w
  | var name =>
    simp only [Term.yield, List.cons_append, List.nil_append]
    rw [ofKinds_term_identifier, ofKinds_afterName_var _ h]
    simp [Term.script]
  | element name index =>
    simp only [Term.yield, List.cons_append, List.append_assoc, List.nil_append]
    rw [ofKinds_term_identifier, ofKinds_afterName_element,
      index.ofKinds_yield (endsExpr_symbol ks (by decide))]
    simp [Term.script]
  | call callee args =>
    simp only [Term.yield, calleeYield, List.cons_append, List.append_assoc, List.nil_append]
    rw [ofKinds_term_identifier, ofKinds_afterName_call, ofKinds_callRest, args.ofKinds_yield]
    simp [Term.script, callScript, calleeYield]
  | group inner =>
    simp only [Term.yield, List.cons_append, List.append_assoc, List.nil_append]
    rw [ofKinds_cons]
    simp only [Goal.predict, Move.term, Move.termSymbol, current_cons, if_pos, resume,
      List.cons_append, List.nil_append, List.tail_cons]
    rw [inner.ofKinds_yield (endsExpr_symbol ks (by decide))]
    simp [Term.script, take]
  | unary op operand =>
    simp only [Term.yield, List.cons_append]
    rw [ofKinds_term_unary, operand.ofKinds_yield h]
    simp [Term.script]

/-- The tokens of an expression are followed by the script of the expression. -/
lemma Expr.ofKinds_yield (e : Expr) {ks : List TokenKind} (h : EndsExpr ks) (K : List Goal) :
    ofKinds (e.yield ++ ks) (.expression :: K) = after e.script (ofKinds ks K) := by
  cases e with
  | mk first rest =>
    rw [Expr.yield, List.append_assoc, ofKinds_expression,
      first.ofKinds_yield (rest.endsTerm h), rest.ofKinds_yield h]
    simp [Expr.script]

/-- The tokens of the rest of an expression are followed by its script. -/
lemma Tail.ofKinds_yield (r : Tail) {ks : List TokenKind} (h : EndsExpr ks) (K : List Goal) :
    ofKinds (r.yield ++ ks) (.operators :: K) =
      after (r.script ++ [.closeNode .expression]) (ofKinds ks K) := by
  cases r with
  | nil => exact ofKinds_operators_nil K h
  | cons op operand rest =>
    simp only [Tail.yield, List.cons_append, List.append_assoc]
    rw [ofKinds_operators_cons, operand.ofKinds_yield (rest.endsTerm h), ofKinds_perform,
      rest.ofKinds_yield h]
    simp [Tail.script]

/-- The tokens of arguments are followed by their script and the call. -/
lemma Args.ofKinds_yield (as : Args) (ks : List TokenKind) (callee : Callee) (K : List Goal) :
    ofKinds (as.yield ++ .symbol ')' :: ks) (.arguments callee :: K) =
      after (as.script 0 ++ [.closeNode .expressionList, take (.symbol ')'),
        .call callee as.length nowhere]) (ofKinds ks K) := by
  cases as with
  | nil => exact ofKinds_arguments_nil ks K callee
  | cons first rest =>
    rw [Args.yield, List.append_assoc, ofKinds_arguments_cons _ (first.current_yield _).1,
      ofKinds_argument, first.ofKinds_yield (rest.endsExpr_more ks), ofKinds_perform,
      rest.ofKinds_more]
    simp [Args.script, Args.length, Nat.add_comm]

/-- The script of arguments after `count` earlier ones. -/
lemma Args.ofKinds_more (as : Args) (ks : List TokenKind) (callee : Callee) (count : Nat)
    (K : List Goal) :
    ofKinds (as.more ++ .symbol ')' :: ks) (.moreArguments callee count :: K) =
      after (as.moreScript count ++ [.closeNode .expressionList, take (.symbol ')'),
        .call callee (count + as.length) nowhere]) (ofKinds ks K) := by
  cases as with
  | nil => exact ofKinds_moreArguments_nil ks K callee count
  | cons first rest =>
    simp only [Args.more, List.cons_append, List.append_assoc]
    rw [ofKinds_moreArguments_cons, ofKinds_argument, first.ofKinds_yield (rest.endsExpr_more ks),
      ofKinds_perform, rest.ofKinds_more]
    simp [Args.moreScript, Args.length, Nat.add_assoc, Nat.add_comm]

end

/-! ## Statements -/

section
variable (ks : List TokenKind) (K : List Goal) (b : Jack.Block) (returned : Bool)

/-- A `let` is an assignment. -/
lemma ofKinds_statements_let :
    ofKinds (.keyword .letKw :: ks) (.statements b returned :: K) =
      after [.openNode .letStatement, take (.keyword .letKw)]
        (ofKinds ks (.letTarget :: .perform [.closeNode .letStatement] ::
          .statements b false :: K)) := by
  rw [ofKinds_cons]
  simp [Goal.predict, Move.statements, resume, take]

/-- The variable assigned to has to be declared. -/
lemma ofKinds_letTarget (name : String) :
    ofKinds (.identifier name :: ks) (.letTarget :: K) =
      after [take (.identifier name), .require name nowhere]
        (ofKinds ks (.letRest name nowhere :: K)) := by
  rw [ofKinds_cons]
  simp [Goal.predict, Move.identifier, resume, take]

/-- An equals sign is followed by the value of the variable. -/
lemma ofKinds_letRest_var (name : String) :
    ofKinds (.symbol '=' :: ks) (.letRest name nowhere :: K) =
      after [take (.symbol '=')]
        (ofKinds ks (.expression :: .symbol ';' :: .perform [.store name nowhere] :: K)) := by
  rw [ofKinds_cons]
  simp [Goal.predict, Move.letRest, resume]

/-- A bracket is followed by an index, and then by the value of the element. -/
lemma ofKinds_letRest_element (name : String) :
    ofKinds (.symbol '[' :: ks) (.letRest name nowhere :: K) =
      after [take (.symbol '[')]
        (ofKinds ks (.expression :: .symbol ']' ::
          .perform [.load name nowhere, .emit (.arithmetic .add)] :: .symbol '=' :: .expression ::
          .symbol ';' :: .perform [.emit (.pop .temp 0), .emit (.pop .pointer 1),
            .emit (.push .temp 0), .emit (.pop .thatCell 0)] :: K)) := by
  rw [ofKinds_cons]
  simp [Goal.predict, Move.letRest, resume, take]

/-- An `if` is followed by a condition, a block and an arm that may be missing. -/
lemma ofKinds_statements_if :
    ofKinds (.keyword .ifKw :: .symbol '(' :: ks) (.statements b returned :: K) =
      after [.openLabels, .openNode .ifStatement, take (.keyword .ifKw), take (.symbol '(')]
        (ofKinds ks (.expression :: .symbol ')' :: .perform [.branchTest] ::
          (Move.innerBlock ++ .perform [.branchElse] :: .elsePart ::
            .perform [.branchEnd, .closeNode .ifStatement] :: .statements b false :: K))) := by
  rw [ofKinds_cons]
  simp [Goal.predict, Move.statements, resume, take]

/-- A `while` is followed by a condition and a block. -/
lemma ofKinds_statements_while :
    ofKinds (.keyword .whileKw :: .symbol '(' :: ks) (.statements b returned :: K) =
      after [.openLabels, .openNode .whileStatement, take (.keyword .whileKw), .loopTop,
        take (.symbol '(')]
        (ofKinds ks (.expression :: .symbol ')' :: .perform [.loopTest] ::
          (Move.innerBlock ++ .perform [.loopEnd, .closeNode .whileStatement] ::
            .statements b false :: K))) := by
  rw [ofKinds_cons]
  simp [Goal.predict, Move.statements, resume, take]

/-- A `do` is followed by a call whose result is dropped. -/
lemma ofKinds_statements_do (callee : Callee) :
    ofKinds (.keyword .doKw :: (calleeYield callee ++ .symbol '(' :: ks))
        (.statements b returned :: K) =
      after ([.openNode .doStatement, take (.keyword .doKw)] ++ (calleeYield callee).map take ++
        [.receiver callee nowhere, take (.symbol '('), .openNode .expressionList])
        (ofKinds ks (.arguments callee :: .symbol ';' ::
          .perform [.emit (.pop .temp 0), .closeNode .doStatement] ::
          .statements b false :: K)) := by
  rw [ofKinds_cons]
  simp only [Goal.predict, Move.statements, current_cons, resume, List.tail_cons, calleeYield,
    List.cons_append, List.nil_append]
  rw [ofKinds_cons]
  simp [Goal.predict, Move.identifier, resume, ofKinds_callRest, take]

/-- A `return` is followed by a value that may be missing. -/
lemma ofKinds_statements_return :
    ofKinds (.keyword .returnKw :: ks) (.statements b returned :: K) =
      after [.openNode .returnStatement, take (.keyword .returnKw)]
        (ofKinds ks (.returnValue :: .symbol ';' ::
          .perform [.emit .ret, .closeNode .returnStatement] :: .statements b true :: K)) := by
  rw [ofKinds_cons]
  simp [Goal.predict, Move.statements, resume, take]

/-- Up to the semicolon stands the value that is returned. -/
lemma ofKinds_returnValue (value : Option Expr) :
    ofKinds (valueYield value ++ .symbol ';' :: ks) (.returnValue :: K) =
      after (valueScript value) (ofKinds (.symbol ';' :: ks) K) := by
  rw [ofKinds_cons]
  cases value with
  | none => simp [valueYield, valueScript, Goal.predict, Move.returnValue, resume]
  | some e =>
    have h := (e.current_yield (.symbol ';' :: ks)).2
    have he := e.ofKinds_yield (endsExpr_symbol ks (by decide : ';' = ')' ∨ _)) K
    simp [valueYield, valueScript, Goal.predict, Move.returnValue, resume, h, he]

/-- Without `else` there is no second arm. -/
lemma ofKinds_elsePart_none {ks : List TokenKind} (h : NoElse ks) :
    ofKinds ks (.elsePart :: K) = ofKinds ks K := by
  have hne : current ks ≠ .keyword .elseKw := h
  rw [ofKinds_cons]
  simp [Goal.predict, Move.elsePart, resume, hne]

/-- An `else` is followed by a block. -/
lemma ofKinds_elsePart_some :
    ofKinds (.keyword .elseKw :: ks) (.elsePart :: K) =
      after [take (.keyword .elseKw)] (ofKinds ks (Move.innerBlock ++ K)) := by
  rw [ofKinds_cons]
  simp [Goal.predict, Move.elsePart, resume, take]

/-- A block starts with a brace. -/
lemma ofKinds_innerBlock :
    ofKinds (.symbol '{' :: ks) (Move.innerBlock ++ K) =
      after [take (.symbol '{'), .openNode .statements]
        (ofKinds ks (.statements .inner false :: K)) := by
  simp [Move.innerBlock]

/-- A block ends with a brace. -/
lemma ofKinds_statements_inner :
    ofKinds (.symbol '}' :: ks) (.statements .inner returned :: K) =
      after [.closeNode .statements, take (.symbol '}')] (ofKinds ks K) := by
  rw [ofKinds_cons]
  simp [Goal.predict, Move.statements, Move.closeBlock, resume, take]

end

/-- No statement starts with `else`. -/
lemma Statement.noElse (s : Statement) (ks : List TokenKind) : NoElse (s.yield ++ ks) := by
  cases s <;> simp [Statement.yield, NoElse]

/-- What follows a statement in a block does not start with `else`. -/
lemma Statements.noElse (ss : Statements) (ks : List TokenKind) :
    NoElse (ss.yield ++ .symbol '}' :: ks) := by
  cases ss with
  | nil => simp [Statements.yield, NoElse]
  | cons first rest =>
    rw [Statements.yield, List.append_assoc]
    exact first.noElse _

mutual

/-- The tokens of a statement are followed by the script of the statement. -/
lemma Statement.ofKinds_yield (s : Statement) {ks : List TokenKind} (h : NoElse ks)
    (b : Jack.Block) (returned : Bool) (K : List Goal) :
    ofKinds (s.yield ++ ks) (.statements b returned :: K) =
      after s.script (ofKinds ks (.statements b s.isReturn :: K)) := by
  cases s with
  | assign name value =>
    simp only [Statement.yield, List.cons_append, List.append_assoc, List.nil_append]
    rw [ofKinds_statements_let, ofKinds_letTarget, ofKinds_letRest_var,
      value.ofKinds_yield (endsExpr_symbol ks (by decide))]
    simp [Statement.script, Statement.isReturn]
  | assignElement name index value =>
    simp only [Statement.yield, List.cons_append, List.append_assoc, List.nil_append]
    rw [ofKinds_statements_let, ofKinds_letTarget, ofKinds_letRest_element,
      index.ofKinds_yield (endsExpr_symbol _ (by decide)), ofKinds_symbol, ofKinds_perform,
      ofKinds_symbol, value.ofKinds_yield (endsExpr_symbol ks (by decide))]
    simp [Statement.script, Statement.isReturn]
  | ifThen condition yes =>
    simp only [Statement.yield, List.cons_append, List.append_assoc, List.nil_append]
    -- `h` is used here only: what comes next must not be taken for a second arm.
    rw [ofKinds_statements_if, condition.ofKinds_yield (endsExpr_symbol _ (by decide)),
      ofKinds_symbol, ofKinds_perform, ofKinds_innerBlock, yes.ofKinds_yield,
      ofKinds_statements_inner, ofKinds_perform,
      ofKinds_elsePart_none _ h, ofKinds_perform]
    simp [Statement.script, Statement.isReturn, bracedScript]
  | ifElse condition yes no =>
    simp only [Statement.yield, List.cons_append, List.append_assoc, List.nil_append]
    rw [ofKinds_statements_if, condition.ofKinds_yield (endsExpr_symbol _ (by decide)),
      ofKinds_symbol, ofKinds_perform, ofKinds_innerBlock, yes.ofKinds_yield,
      ofKinds_statements_inner, ofKinds_perform,
      ofKinds_elsePart_some, ofKinds_innerBlock, no.ofKinds_yield,
      ofKinds_statements_inner, ofKinds_perform]
    simp [Statement.script, Statement.isReturn, bracedScript]
  | loop condition body =>
    simp only [Statement.yield, List.cons_append, List.append_assoc, List.nil_append]
    rw [ofKinds_statements_while, condition.ofKinds_yield (endsExpr_symbol _ (by decide)),
      ofKinds_symbol, ofKinds_perform, ofKinds_innerBlock, body.ofKinds_yield,
      ofKinds_statements_inner, ofKinds_perform]
    simp [Statement.script, Statement.isReturn, bracedScript]
  | invoke callee args =>
    simp only [Statement.yield, List.cons_append, List.append_assoc, List.nil_append]
    rw [ofKinds_statements_do, args.ofKinds_yield]
    simp [Statement.script, Statement.isReturn, callScript]
  | giveBack value =>
    simp only [Statement.yield, List.cons_append, List.append_assoc, List.nil_append]
    rw [ofKinds_statements_return, ofKinds_returnValue]
    simp [Statement.script, Statement.isReturn]

/-- The script of statements in front of a closing brace. -/
lemma Statements.ofKinds_yield (ss : Statements) (ks : List TokenKind) (b : Jack.Block)
    (returned : Bool) (K : List Goal) :
    ofKinds (ss.yield ++ .symbol '}' :: ks) (.statements b returned :: K) =
      after ss.script
        (ofKinds (.symbol '}' :: ks) (.statements b (ss.returnsAfter returned) :: K)) := by
  cases ss with
  | nil => rfl
  | cons first rest =>
    -- The flag of the goal is whether the statement just read was a return.
    rw [Statements.yield, List.append_assoc, first.ofKinds_yield (rest.noElse ks),
      rest.ofKinds_yield]
    simp [Statements.script, Statements.returnsAfter]

end

/-! ## Declarations -/

/-- The token of a type is read as its name. -/
lemma TypeName.typeName?_token (t : TypeName) : t.token.typeName? = some t.text := by
  cases t <;> rfl

section
variable (ks : List TokenKind) (K : List Goal)

/-- A declared name is taken and declared. -/
lemma ofKinds_variable (type : String) (kind : SymbolKind) (name : String) :
    ofKinds (.identifier name :: ks) (.variable type kind :: K) =
      after (nameScript type kind name) (ofKinds ks K) := by
  rw [ofKinds_cons]
  simp [Goal.predict, Move.identifier, resume, nameScript, take]

/-- Further names are taken and declared up to the semicolon. -/
lemma ofKinds_moreVariables (type : String) (kind : SymbolKind) (names : List String) :
    ofKinds (moreNames names ++ .symbol ';' :: ks) (.moreVariables type kind :: K) =
      after (names.flatMap fun name => take (.symbol ',') :: nameScript type kind name)
        (ofKinds (.symbol ';' :: ks) K) := by
  induction names with
  | nil =>
    rw [ofKinds_cons]
    simp [moreNames, Goal.predict, Move.afterComma, resume]
  | cons name names ih =>
    rw [ofKinds_cons]
    simp [moreNames, Goal.predict, Move.afterComma, resume, ofKinds_variable, ih, take]

/-- The tokens of a list of names are followed by its script. -/
lemma Names.ofKinds_yield (n : Names) (kind : SymbolKind) :
    ofKinds (n.yield ++ .symbol ';' :: ks) (.variables kind :: K) =
      after (n.script kind) (ofKinds (.symbol ';' :: ks) K) := by
  rw [ofKinds_cons]
  simp [Names.yield, Names.script, Goal.predict, Move.type, n.type.typeName?_token, resume,
    ofKinds_variable, ofKinds_moreVariables, take]

/-- The declarations of the class are followed one by one, and then the subroutines. -/
lemma ofKinds_classVarDecs {ks : List TokenKind}
    (h : ∀ s : Storage, current ks ≠ .keyword s.keyword) (vars : List ClassVarDec) :
    ofKinds (vars.flatMap ClassVarDec.yield ++ ks) (.classVarDecs :: K) =
      after (vars.flatMap ClassVarDec.script) (ofKinds ks (.subroutineDecs :: K)) := by
  induction vars with
  | nil =>
    have hs := h .static
    have hf := h .field
    rw [List.flatMap_nil, List.nil_append, ofKinds_cons]
    simp only [Goal.predict, Move.classVarDecs]
    split <;> simp_all [Storage.keyword, resume]
  | cons d vars ih =>
    rw [List.flatMap_cons, List.append_assoc, ClassVarDec.yield, ofKinds_cons]
    cases hd : d.storage <;>
      simp [Goal.predict, Move.classVarDecs, resume, hd, Storage.keyword,
        Names.ofKinds_yield, ih, ClassVarDec.script, Storage.kind, take]

/-- The declarations of locals are followed one by one. -/
lemma ofKinds_varDecs {ks : List TokenKind} (h : current ks ≠ .keyword .varKw)
    (locals : List Names) :
    ofKinds (locals.flatMap localsYield ++ ks) (.varDecs :: K) =
      after (locals.flatMap localsScript) (ofKinds ks K) := by
  induction locals with
  | nil =>
    rw [List.flatMap_nil, List.nil_append, ofKinds_cons]
    simp [Goal.predict, Move.varDecs, resume, h]
  | cons n locals ih =>
    rw [List.flatMap_cons, List.append_assoc, localsYield, ofKinds_cons]
    simp [Goal.predict, Move.varDecs, resume, Names.ofKinds_yield, ih, localsScript, take]

/-- The tokens of a parameter are followed by its script. -/
lemma ofKinds_parameter (p : Parameter) :
    ofKinds (p.yield ++ ks) (.parameter :: K) = after p.script (ofKinds ks K) := by
  rw [ofKinds_cons]
  simp [Parameter.yield, Parameter.script, Goal.predict, Move.type, p.type.typeName?_token, resume,
    ofKinds_variable, take]

/-- Further parameters are followed up to the parenthesis. -/
lemma ofKinds_moreParameters (ps : List Parameter) :
    ofKinds (moreParameters ps ++ .symbol ')' :: ks) (.moreParameters :: K) =
      after (ps.flatMap fun p => take (.symbol ',') :: p.script)
        (ofKinds (.symbol ')' :: ks) K) := by
  induction ps with
  | nil =>
    rw [ofKinds_cons]
    simp [moreParameters, Goal.predict, Move.afterComma, resume]
  | cons p ps ih =>
    rw [ofKinds_cons]
    simp [moreParameters, Goal.predict, Move.afterComma, resume, ofKinds_parameter, ih, take]

/-- The tokens of parameters are followed by their script. -/
lemma ofKinds_parameters (ps : List Parameter) :
    ofKinds (parametersYield ps ++ .symbol ')' :: ks) (.parameters :: K) =
      after (parametersScript ps) (ofKinds (.symbol ')' :: ks) K) := by
  cases ps with
  | nil =>
    rw [ofKinds_cons]
    simp [parametersYield, parametersScript, Goal.predict, Move.parameters, resume]
  | cons p ps =>
    have h : current (p.yield ++ (moreParameters ps ++ .symbol ')' :: ks)) ≠ .symbol ')' := by
      cases ht : p.type <;> simp [Parameter.yield, ht, TypeName.token]
    rw [parametersYield, List.append_assoc, ofKinds_cons]
    simp [Goal.predict, Move.parameters, resume, h, ofKinds_parameter, ofKinds_moreParameters,
      parametersScript]

/-! ## Subroutines and classes -/

/-- The type of a result is taken. -/
lemma ofKinds_resultType (result : Option TypeName) :
    ofKinds (resultToken result :: ks) (.resultType :: K) =
      after [take (resultToken result)] (ofKinds ks K) := by
  rw [ofKinds_cons]
  cases result with
  | none => simp [resultToken, Goal.predict, Move.resultType, resume, take]
  | some t =>
    cases t <;>
      simp [resultToken, TypeName.token, Goal.predict, Move.resultType, Move.type,
        TokenKind.typeName?, resume, take]

/-- The script of the closing brace of a subroutine. -/
lemma Subroutine.ofKinds_closing (s : Subroutine) :
    ofKinds (.symbol '}' :: ks) (.statements (.body s.kind s.name) s.body.endsInReturn :: K) =
      after s.closingScript (ofKinds ks K) := by
  rw [ofKinds_cons]
  simp only [Goal.predict, Move.statements, Move.closeBlock, current_cons]
  by_cases hr : s.body.endsInReturn
  · simp [hr, closingScript, resume, take]
  · by_cases hk : s.kind = .constructor
    · simp [hr, hk, closingScript, resume, take]
    · simp [hr, hk, closingScript, resume, take]

/-- No statement starts with `var`, nor does the end of a block. -/
lemma Statements.current_ne_var (ss : Statements) :
    current (ss.yield ++ .symbol '}' :: ks) ≠ .keyword .varKw := by
  cases ss with
  | nil => simp [Statements.yield]
  | cons first rest => cases first <;> simp [Statements.yield, Statement.yield]

/-- The tokens of a subroutine are followed by its script. -/
lemma Subroutine.ofKinds_yield (s : Subroutine) :
    ofKinds (s.yield ++ ks) (.subroutineDecs :: K) =
      after s.script (ofKinds ks (.subroutineDecs :: K)) := by
  have hbody : ∀ K : List Goal,
      ofKinds (s.body.yield ++ .symbol '}' :: ks) (.statements (.body s.kind s.name) false :: K) =
        after (s.body.script ++ s.closingScript) (ofKinds ks K) := by
    intro K
    have h := s.ofKinds_closing ks K
    rw [Statements.endsInReturn] at h
    rw [s.body.ofKinds_yield, h, after_after]
  -- The goals behind the locals are not known yet, so the fact is kept for all of them.
  have hlocals := fun K => ofKinds_varDecs K (s.body.current_ne_var ks) s.locals
  have hkind : SubroutineKind.ofKeyword? (kindKeyword s.kind) = some s.kind := by
    cases s.kind <;> rfl
  simp only [Subroutine.yield, List.cons_append, List.append_assoc, List.nil_append]
  rw [ofKinds_cons]
  simp only [Goal.predict, Move.subroutineDecs, current_cons, hkind, resume, List.tail_cons,
    List.cons_append, List.nil_append]
  rw [ofKinds_resultType, ofKinds_cons]
  simp [Goal.predict, Move.identifier, Move.subroutineRest, resume, ofKinds_parameters, hlocals,
    hbody, Subroutine.script, take]

/-- Subroutines are followed one by one, and then the end of the class. -/
lemma ofKinds_subroutineDecs (ss : List Subroutine) :
    ofKinds (ss.flatMap Subroutine.yield ++ .symbol '}' :: ks) (.subroutineDecs :: K) =
      after (ss.flatMap Subroutine.script ++ [take (.symbol '}'), .closeNode .wholeClass])
        (ofKinds ks (.endOfInput :: K)) := by
  induction ss with
  | nil =>
    rw [List.flatMap_nil, List.nil_append, ofKinds_cons]
    simp [Goal.predict, Move.subroutineDecs, resume, take]
  | cons s ss ih =>
    rw [List.flatMap_cons, List.append_assoc, s.ofKinds_yield, ih]
    simp

end

/-- The subroutines of a class do not start with a declaration of variables. -/
lemma current_subroutines_ne (ss : List Subroutine) (ks : List TokenKind) (s : Storage) :
    current (ss.flatMap Subroutine.yield ++ .symbol '}' :: ks) ≠ .keyword s.keyword := by
  cases ss with
  | nil => simp
  | cons r rs =>
    cases s <;> cases hr : r.kind <;> simp [Subroutine.yield, hr, kindKeyword, Storage.keyword]

/-- The script of a class. -/
lemma ClassDec.ofKinds_yield (c : ClassDec) {ks : List TokenKind} (h : current ks = .eof) :
    ofKinds (c.yield ++ ks) Goal.wholeClass = ⟨c.script, none⟩ := by
  have hvars := current_subroutines_ne c.subroutines ks
  have hend : ofKinds ks [.endOfInput] = ⟨[], none⟩ := by
    rw [ofKinds_cons]
    simp [Goal.predict, Move.endOfInput, h, resume]
  simp only [ClassDec.yield, Goal.wholeClass, List.cons_append, List.append_assoc,
    List.nil_append, ofKinds_perform, ofKinds_keyword]
  rw [ofKinds_cons]
  simp [Goal.predict, Move.identifier, resume, ofKinds_classVarDecs _ hvars,
    ofKinds_subroutineDecs, hend, after, ClassDec.script, take]

end Jack.Grammar
