import Jack.Proofs.Parse.Complete

/-!
# Yields determine derivations

The end of the input is no token of a derivation, and two derivations with the same yield are the
same. For the parts of a class the second needs to know what follows them: tokens that do not make
the part go on.
-/

namespace Jack.Grammar

open Script

/-! ## The end of the input -/

/-- A type is not the end of the input. -/
lemma TypeName.token_ne_eof (t : TypeName) : t.token ≠ .eof := by
  cases t <;> simp [TypeName.token]

/-- The type of a result is not the end of the input. -/
lemma resultToken_ne_eof (t : Option TypeName) : resultToken t ≠ .eof := by
  cases t with
  | none => simp [resultToken]
  | some t => exact t.token_ne_eof

/-- The end of the input is not among the names of a call. -/
lemma eof_not_mem_calleeYield (callee : Callee) : .eof ∉ calleeYield callee := by
  cases callee <;> simp [calleeYield, calleeRest]

mutual

/-- The end of the input is not in a term. -/
lemma Term.eof_not_mem_yield (t : Term) : .eof ∉ t.yield := by
  cases t with
  | integer value => simp [Term.yield]
  | string body => simp [Term.yield]
  | word w => simp [Term.yield]
  | var name => simp [Term.yield]
  | element name index => simp [Term.yield, Expr.eof_not_mem_yield index]
  | call callee args =>
    simp [Term.yield, eof_not_mem_calleeYield callee, Args.eof_not_mem_yield args]
  | group inner => simp [Term.yield, Expr.eof_not_mem_yield inner]
  | unary op operand => simp [Term.yield, Term.eof_not_mem_yield operand]

/-- The end of the input is not in an expression. -/
lemma Expr.eof_not_mem_yield (x : Expr) : .eof ∉ x.yield := by
  cases x with
  | mk first rest =>
    simp [Expr.yield, Term.eof_not_mem_yield first, Tail.eof_not_mem_yield rest]

/-- The end of the input is not in the rest of an expression. -/
lemma Tail.eof_not_mem_yield (x : Tail) : .eof ∉ x.yield := by
  cases x with
  | nil => simp [Tail.yield]
  | cons op operand rest =>
    simp [Tail.yield, Term.eof_not_mem_yield operand, Tail.eof_not_mem_yield rest]

/-- The end of the input is not among arguments. -/
lemma Args.eof_not_mem_yield (as : Args) : .eof ∉ as.yield := by
  cases as with
  | nil => simp [Args.yield]
  | cons first rest =>
    simp [Args.yield, Expr.eof_not_mem_yield first, Args.eof_not_mem_more rest]

/-- The end of the input is not among further arguments. -/
lemma Args.eof_not_mem_more (as : Args) : .eof ∉ as.more := by
  cases as with
  | nil => simp [Args.more]
  | cons first rest =>
    simp [Args.more, Expr.eof_not_mem_yield first, Args.eof_not_mem_more rest]

end

/-- The end of the input is not in the value of a `return`. -/
lemma eof_not_mem_valueYield (value : Option Expr) : .eof ∉ valueYield value := by
  cases value with
  | none => simp [valueYield]
  | some value => exact value.eof_not_mem_yield

mutual

/-- The end of the input is not in a statement. -/
lemma Statement.eof_not_mem_yield (s : Statement) : .eof ∉ s.yield := by
  cases s with
  | assign name value => simp [Statement.yield, value.eof_not_mem_yield]
  | assignElement name index value =>
    simp [Statement.yield, index.eof_not_mem_yield, value.eof_not_mem_yield]
  | ifThen condition yes =>
    simp [Statement.yield, condition.eof_not_mem_yield, Statements.eof_not_mem_yield yes]
  | ifElse condition yes no =>
    simp [Statement.yield, condition.eof_not_mem_yield, Statements.eof_not_mem_yield yes,
      Statements.eof_not_mem_yield no]
  | loop condition body =>
    simp [Statement.yield, condition.eof_not_mem_yield, Statements.eof_not_mem_yield body]
  | invoke callee args =>
    simp [Statement.yield, eof_not_mem_calleeYield callee, args.eof_not_mem_yield]
  | giveBack value => simp [Statement.yield, eof_not_mem_valueYield value]

/-- The end of the input is not in statements. -/
lemma Statements.eof_not_mem_yield (ss : Statements) : .eof ∉ ss.yield := by
  cases ss with
  | nil => simp [Statements.yield]
  | cons first rest =>
    simp [Statements.yield, Statement.eof_not_mem_yield first, Statements.eof_not_mem_yield rest]

end

/-- The end of the input is not among further names. -/
lemma eof_not_mem_moreNames (names : List String) : .eof ∉ moreNames names := by
  induction names with
  | nil => simp [moreNames]
  | cons name names ih => simp [moreNames, ih]

/-- The end of the input is not in a list of names. -/
lemma Names.eof_not_mem_yield (n : Names) : .eof ∉ n.yield := by
  simp [Names.yield, n.type.token_ne_eof.symm, eof_not_mem_moreNames]

/-- The end of the input is not among further parameters. -/
lemma eof_not_mem_moreParameters (ps : List Parameter) : .eof ∉ moreParameters ps := by
  induction ps with
  | nil => simp [moreParameters]
  | cons p ps ih => simp [moreParameters, Parameter.yield, p.type.token_ne_eof.symm, ih]

/-- The end of the input is not among parameters. -/
lemma eof_not_mem_parametersYield (ps : List Parameter) : .eof ∉ parametersYield ps := by
  cases ps with
  | nil => simp [parametersYield]
  | cons p ps =>
    simp [parametersYield, Parameter.yield, p.type.token_ne_eof.symm, eof_not_mem_moreParameters]

/-- The end of the input is not in a subroutine. -/
lemma Subroutine.eof_not_mem_yield (s : Subroutine) : .eof ∉ s.yield := by
  simp [Subroutine.yield, localsYield, (resultToken_ne_eof s.result).symm,
    eof_not_mem_parametersYield, Names.eof_not_mem_yield, s.body.eof_not_mem_yield]

/-- The end of the input is not in a class. -/
lemma ClassDec.eof_not_mem_yield (c : ClassDec) : .eof ∉ c.yield := by
  simp [ClassDec.yield, ClassVarDec.yield, Names.eof_not_mem_yield, Subroutine.eof_not_mem_yield]

/-- The kinds in front of the first end of the input. -/
def beforeEof (ks : List TokenKind) : List TokenKind := ks.takeWhile (· ≠ .eof)

/-- The tokens of a class in front of the end of the input are all there is. -/
lemma ClassDec.beforeEof_yield (c : ClassDec) {rest : List TokenKind} (h : current rest = .eof) :
    beforeEof (c.yield ++ rest) = c.yield := by
  have hc : ∀ k ∈ c.yield, decide (k ≠ .eof) = true := by
    intro k hk
    have hne : k ≠ .eof := fun he => c.eof_not_mem_yield (he ▸ hk)
    simpa using hne
  have hr : rest.takeWhile (· ≠ .eof) = [] := by
    cases rest with
    | nil => rfl
    | cons k ks =>
      rw [current_cons] at h
      simp [h]
  rw [beforeEof, List.takeWhile_append_of_pos hc, hr, List.append_nil]

/-- Dropping the kinds before the end of the input leaves that end. -/
lemma current_dropWhile (ks : List TokenKind) : current (ks.dropWhile (· ≠ .eof)) = .eof := by
  induction ks with
  | nil => rfl
  | cons k ks ih =>
    by_cases hk : k = .eof
    · simp [hk]
    · simpa [List.dropWhile_cons, hk] using ih

/-- After the kinds in front of it, the end of the input follows. -/
lemma exists_beforeEof_append (ks : List TokenKind) :
    ∃ rest, ks = beforeEof ks ++ rest ∧ current rest = .eof :=
  ⟨ks.dropWhile (· ≠ .eof), List.takeWhile_append_dropWhile.symm, current_dropWhile ks⟩

/-! ## Unambiguity -/

/-- Operators are told apart by their symbols. -/
lemma Operator.symbol_injective {op op' : Operator} (h : op.symbol = op'.symbol) : op = op' := by
  cases op <;> cases op' <;> simp_all [Operator.symbol]

/-- Unary operators are told apart by their symbols. -/
lemma UnaryOp.symbol_injective {op op' : UnaryOp} (h : op.symbol = op'.symbol) : op = op' := by
  cases op <;> cases op' <;> simp_all [UnaryOp.symbol]

/-- No unary operator looks like a group. -/
lemma UnaryOp.symbol_ne_paren (op : UnaryOp) : op.symbol ≠ '(' := by
  cases op <;> decide

/-- The words that are terms are told apart by their keywords. -/
lemma TermWord.keyword_injective {w w' : TermWord} (h : w.keyword = w'.keyword) : w = w' := by
  cases w <;> cases w' <;> simp_all [TermWord.keyword]

/-- What is called is determined by the names in front of the parenthesis. -/
lemma callee_unique {callee callee' : Callee} {r r' : List TokenKind}
    (h : calleeYield callee ++ .symbol '(' :: r = calleeYield callee' ++ .symbol '(' :: r') :
    callee = callee' ∧ r = r' := by
  cases callee <;> cases callee' <;> simp_all [calleeYield, calleeFirst, calleeRest]

/-- An operator does not end an expression. -/
lemma Operator.not_endsExpr (op : Operator) (ks : List TokenKind) :
    ¬ EndsExpr (.symbol op.symbol :: ks) := by
  intro h
  have hn := h.2 op.symbol rfl
  rw [op.ofSymbol?_symbol] at hn
  cases hn

/-- A variable does not end where its index starts. -/
lemma not_endsTerm_bracket (ks : List TokenKind) : ¬ EndsTerm (.symbol '[' :: ks) := by
  intro h
  exact h.1 rfl

/-- A variable does not end where a call goes on. -/
lemma not_endsTerm_call (callee : Callee) (ks : List TokenKind) :
    ¬ EndsTerm (calleeRest callee ++ .symbol '(' :: ks) := by
  intro h
  cases callee with
  | own name => exact h.2.1 rfl
  | member owner name => exact h.2.2 rfl

mutual

/-- A term is determined by its tokens, and so is where it ends. -/
lemma Term.unique (t t' : Term) {r r' : List TokenKind} (h : t.yield ++ r = t'.yield ++ r')
    (hr : EndsTerm r) (hr' : EndsTerm r') : t = t' ∧ r = r' := by
  cases t with
  | integer value => cases t' <;> simp_all [Term.yield, calleeYield]
  | string body => cases t' <;> simp_all [Term.yield, calleeYield]
  | word w =>
    cases t' <;> simp_all [Term.yield, calleeYield]
    exact w.keyword_injective h.1
  -- Three kinds of terms start with a name. What follows tells them apart, and behind a variable
  -- nothing may follow that would go on with the term.
  | var name =>
    cases t' with
    | var name' => simp_all [Term.yield]
    | element name' index' =>
      simp [Term.yield] at h
      exact absurd (h.2 ▸ hr) (not_endsTerm_bracket _)
    | call callee' args' =>
      simp [Term.yield, calleeYield] at h
      exact absurd (h.2 ▸ hr) (not_endsTerm_call _ _)
    | _ => simp [Term.yield] at h
  | element name index =>
    cases t' with
    | var name' =>
      simp [Term.yield] at h
      exact absurd (h.2 ▸ hr') (not_endsTerm_bracket _)
    | element name' index' =>
      simp [Term.yield] at h
      obtain ⟨rfl, hi⟩ := h
      obtain ⟨rfl, hrest⟩ := Expr.unique index index' hi (endsExpr_symbol _ (by decide))
        (endsExpr_symbol _ (by decide))
      simpa using hrest
    | call callee' args' => cases callee' <;> simp [Term.yield, calleeYield, calleeRest] at h
    | _ => simp [Term.yield] at h
  | call callee args =>
    cases t' with
    | var name' =>
      simp [Term.yield, calleeYield] at h
      exact absurd (h.2 ▸ hr') (not_endsTerm_call _ _)
    | element name' index' => cases callee <;> simp [Term.yield, calleeYield, calleeRest] at h
    | call callee' args' =>
      simp only [Term.yield, List.append_assoc, List.cons_append] at h
      obtain ⟨rfl, ha⟩ := callee_unique h
      obtain ⟨rfl, hrest⟩ := Args.unique args args' ha
      exact ⟨rfl, hrest⟩
    | _ => simp [Term.yield, calleeYield] at h
  | group inner =>
    cases t' with
    | group inner' =>
      simp [Term.yield] at h
      obtain ⟨rfl, hrest⟩ := Expr.unique inner inner' h (endsExpr_symbol _ (by decide))
        (endsExpr_symbol _ (by decide))
      simpa using hrest
    | unary op' operand' =>
      simp [Term.yield] at h
      exact absurd h.1.symm op'.symbol_ne_paren
    | call callee' args' => simp [Term.yield, calleeYield] at h
    | _ => simp [Term.yield] at h
  | unary op operand =>
    cases t' with
    | group inner' =>
      simp [Term.yield] at h
      exact absurd h.1 op.symbol_ne_paren
    | unary op' operand' =>
      simp [Term.yield] at h
      obtain rfl := UnaryOp.symbol_injective h.1
      obtain ⟨rfl, hrest⟩ := Term.unique operand operand' h.2 hr hr'
      exact ⟨rfl, hrest⟩
    | call callee' args' => simp [Term.yield, calleeYield] at h
    | _ => simp [Term.yield] at h

/-- An expression is determined by its tokens, and so is where it ends. -/
lemma Expr.unique (x x' : Expr) {r r' : List TokenKind} (h : x.yield ++ r = x'.yield ++ r')
    (hr : EndsExpr r) (hr' : EndsExpr r') : x = x' ∧ r = r' := by
  cases x with
  | mk first rest =>
    cases x' with
    | mk first' rest' =>
      simp only [Expr.yield, List.append_assoc] at h
      obtain ⟨rfl, ht⟩ := Term.unique first first' h (rest.endsTerm hr) (rest'.endsTerm hr')
      obtain ⟨rfl, hrest⟩ := Tail.unique rest rest' ht hr hr'
      exact ⟨rfl, hrest⟩

/-- The rest of an expression is determined by its tokens, and so is where it ends. -/
lemma Tail.unique (x x' : Tail) {r r' : List TokenKind} (h : x.yield ++ r = x'.yield ++ r')
    (hr : EndsExpr r) (hr' : EndsExpr r') : x = x' ∧ r = r' := by
  cases x with
  | nil =>
    cases x' with
    | nil => exact ⟨rfl, h⟩
    | cons op' operand' rest' =>
      simp only [Tail.yield, List.nil_append, List.cons_append] at h
      exact absurd (h ▸ hr) (op'.not_endsExpr _)
  | cons op operand rest =>
    cases x' with
    | nil =>
      simp only [Tail.yield, List.nil_append, List.cons_append] at h
      exact absurd (h ▸ hr') (op.not_endsExpr _)
    | cons op' operand' rest' =>
      simp only [Tail.yield, List.append_assoc, List.cons_append, List.cons.injEq,
        TokenKind.symbol.injEq] at h
      obtain rfl := Operator.symbol_injective h.1
      obtain ⟨rfl, ht⟩ :=
        Term.unique operand operand' h.2 (rest.endsTerm hr) (rest'.endsTerm hr')
      obtain ⟨rfl, hrest⟩ := Tail.unique rest rest' ht hr hr'
      exact ⟨rfl, hrest⟩

/-- Arguments are determined by the tokens up to the parenthesis. -/
lemma Args.unique (as as' : Args) {r r' : List TokenKind}
    (h : as.yield ++ .symbol ')' :: r = as'.yield ++ .symbol ')' :: r') : as = as' ∧ r = r' := by
  cases as with
  | nil =>
    cases as' with
    | nil => simpa [Args.yield] using h
    | cons first' rest' =>
      simp only [Args.yield, List.nil_append, List.append_assoc] at h
      exact absurd (congrArg current h).symm (first'.current_yield _).1
  | cons first rest =>
    cases as' with
    | nil =>
      simp only [Args.yield, List.nil_append, List.append_assoc] at h
      exact absurd (congrArg current h) (first.current_yield _).1
    | cons first' rest' =>
      simp only [Args.yield, List.append_assoc] at h
      obtain ⟨rfl, hm⟩ :=
        Expr.unique first first' h (rest.endsExpr_more r) (rest'.endsExpr_more r')
      obtain ⟨rfl, hrest⟩ := Args.unique_more rest rest' hm
      exact ⟨rfl, hrest⟩

/-- Further arguments are determined by the tokens up to the parenthesis. -/
lemma Args.unique_more (as as' : Args) {r r' : List TokenKind}
    (h : as.more ++ .symbol ')' :: r = as'.more ++ .symbol ')' :: r') : as = as' ∧ r = r' := by
  cases as with
  | nil =>
    cases as' with
    | nil => simpa [Args.more] using h
    | cons first' rest' => simp [Args.more] at h
  | cons first rest =>
    cases as' with
    | nil => simp [Args.more] at h
    | cons first' rest' =>
      simp only [Args.more, List.append_assoc, List.cons_append, List.cons.injEq, true_and] at h
      obtain ⟨rfl, hm⟩ :=
        Expr.unique first first' h (rest.endsExpr_more r) (rest'.endsExpr_more r')
      obtain ⟨rfl, hrest⟩ := Args.unique_more rest rest' hm
      exact ⟨rfl, hrest⟩

end

/-- An expression in front of a token that ends it. -/
lemma Expr.unique_symbol {c : Char} (hc : c = ')' ∨ c = ']' ∨ c = ';' ∨ c = ',') {x x' : Expr}
    {r r' : List TokenKind} (h : x.yield ++ .symbol c :: r = x'.yield ++ .symbol c :: r') :
    x = x' ∧ r = r' := by
  obtain ⟨hx, hr⟩ := x.unique x' h (endsExpr_symbol r hc) (endsExpr_symbol r' hc)
  exact ⟨hx, (List.cons.inj hr).2⟩

/-- The value of a `return` is determined by the tokens up to the semicolon. -/
lemma value_unique {v v' : Option Expr} {r r' : List TokenKind}
    (h : valueYield v ++ .symbol ';' :: r = valueYield v' ++ .symbol ';' :: r') :
    v = v' ∧ r = r' := by
  cases v with
  | none =>
    cases v' with
    | none => simpa [valueYield] using h
    | some x' => exact absurd (congrArg current h).symm (x'.current_yield _).2
  | some x =>
    cases v' with
    | none => exact absurd (congrArg current h) (x.current_yield _).2
    | some x' =>
      obtain ⟨rfl, hr⟩ := Expr.unique_symbol (by decide) h
      exact ⟨rfl, hr⟩

/-- No statement starts with a closing brace. -/
lemma Statement.current_yield (s : Statement) (r : List TokenKind) :
    current (s.yield ++ r) ≠ .symbol '}' := by
  cases s <;> simp [Statement.yield]

mutual

/-- A statement is determined by its tokens where no `else` follows. -/
lemma Statement.unique (s s' : Statement) {r r' : List TokenKind}
    (h : s.yield ++ r = s'.yield ++ r') (hr : NoElse r) (hr' : NoElse r') : s = s' ∧ r = r' := by
  cases s with
  | assign name value =>
    cases s' with
    | assign name' value' =>
      simp [Statement.yield] at h
      obtain ⟨rfl, hv⟩ := h
      obtain ⟨rfl, hrest⟩ := Expr.unique_symbol (by decide) hv
      exact ⟨rfl, hrest⟩
    | _ => simp [Statement.yield] at h
  | assignElement name index value =>
    cases s' with
    | assignElement name' index' value' =>
      simp [Statement.yield] at h
      obtain ⟨rfl, hi⟩ := h
      obtain ⟨rfl, hv⟩ := Expr.unique_symbol (by decide) hi
      obtain ⟨rfl, hrest⟩ := Expr.unique_symbol (by decide) (List.cons.inj hv).2
      exact ⟨rfl, hrest⟩
    | _ => simp [Statement.yield] at h
  | ifThen condition yes =>
    cases s' with
    | ifThen condition' yes' =>
      simp [Statement.yield] at h
      obtain ⟨rfl, hy⟩ := Expr.unique_symbol (by decide) h
      obtain ⟨rfl, hrest⟩ := Statements.unique yes yes' (List.cons.inj hy).2
      exact ⟨rfl, hrest⟩
    | ifElse condition' yes' no' =>
      simp [Statement.yield] at h
      obtain ⟨rfl, hy⟩ := Expr.unique_symbol (by decide) h
      obtain ⟨rfl, hrest⟩ := Statements.unique yes yes' (List.cons.inj hy).2
      -- The tokens agree up to `else`, which cannot follow the first statement.
      exact absurd (hrest ▸ rfl) hr
    | _ => simp [Statement.yield] at h
  | ifElse condition yes no =>
    cases s' with
    | ifThen condition' yes' =>
      simp [Statement.yield] at h
      obtain ⟨rfl, hy⟩ := Expr.unique_symbol (by decide) h
      obtain ⟨rfl, hrest⟩ := Statements.unique yes yes' (List.cons.inj hy).2
      exact absurd (hrest ▸ rfl) hr'
    | ifElse condition' yes' no' =>
      simp [Statement.yield] at h
      obtain ⟨rfl, hy⟩ := Expr.unique_symbol (by decide) h
      obtain ⟨rfl, hn⟩ := Statements.unique yes yes' (List.cons.inj hy).2
      simp only [List.cons.injEq, true_and] at hn
      obtain ⟨rfl, hrest⟩ := Statements.unique no no' hn
      exact ⟨rfl, hrest⟩
    | _ => simp [Statement.yield] at h
  | loop condition body =>
    cases s' with
    | loop condition' body' =>
      simp [Statement.yield] at h
      obtain ⟨rfl, hb⟩ := Expr.unique_symbol (by decide) h
      obtain ⟨rfl, hrest⟩ := Statements.unique body body' (List.cons.inj hb).2
      exact ⟨rfl, hrest⟩
    | _ => simp [Statement.yield] at h
  | invoke callee args =>
    cases s' with
    | invoke callee' args' =>
      simp [Statement.yield] at h
      obtain ⟨rfl, ha⟩ := callee_unique h
      obtain ⟨rfl, hrest⟩ := Args.unique args args' ha
      exact ⟨rfl, (List.cons.inj hrest).2⟩
    | _ => simp [Statement.yield] at h
  | giveBack value =>
    cases s' with
    | giveBack value' =>
      simp [Statement.yield] at h
      obtain ⟨rfl, hrest⟩ := value_unique h
      exact ⟨rfl, hrest⟩
    | _ => simp [Statement.yield] at h

/-- Statements are determined by the tokens up to the brace. -/
lemma Statements.unique (ss ss' : Statements) {r r' : List TokenKind}
    (h : ss.yield ++ .symbol '}' :: r = ss'.yield ++ .symbol '}' :: r') : ss = ss' ∧ r = r' := by
  cases ss with
  | nil =>
    cases ss' with
    | nil => simpa [Statements.yield] using h
    | cons first' rest' =>
      simp only [Statements.yield, List.nil_append, List.append_assoc] at h
      exact absurd (congrArg current h).symm (first'.current_yield _)
  | cons first rest =>
    cases ss' with
    | nil =>
      simp only [Statements.yield, List.nil_append, List.append_assoc] at h
      exact absurd (congrArg current h) (first.current_yield _)
    | cons first' rest' =>
      simp only [Statements.yield, List.append_assoc] at h
      obtain ⟨rfl, hs⟩ :=
        Statement.unique first first' h (rest.noElse r) (rest'.noElse r')
      obtain ⟨rfl, hrest⟩ := Statements.unique rest rest' hs
      exact ⟨rfl, hrest⟩

end

/-! ### Declarations -/

/-- Types are told apart by their tokens. -/
lemma TypeName.token_injective {t t' : TypeName} (h : t.token = t'.token) : t = t' := by
  cases t <;> cases t' <;> simp_all [TypeName.token]

/-- The types of results are told apart by their tokens. -/
lemma resultToken_injective {t t' : Option TypeName} (h : resultToken t = resultToken t') :
    t = t' := by
  cases t with
  | none =>
    cases t' with
    | none => rfl
    | some type' => cases type' <;> simp [resultToken, TypeName.token] at h
  | some type =>
    cases t' with
    | none => cases type <;> simp [resultToken, TypeName.token] at h
    | some type' => rw [TypeName.token_injective h]

/-- The kinds of subroutines are told apart by their keywords. -/
lemma kindKeyword_injective {k k' : SubroutineKind} (h : kindKeyword k = kindKeyword k') :
    k = k' := by
  cases k <;> cases k' <;> simp_all [kindKeyword]

/-- Storages are told apart by their keywords. -/
lemma Storage.keyword_injective {s s' : Storage} (h : s.keyword = s'.keyword) : s = s' := by
  cases s <;> cases s' <;> simp_all [Storage.keyword]

/-- Further names are determined by the tokens up to the semicolon. -/
lemma moreNames_unique {ns ns' : List String} {r r' : List TokenKind}
    (h : moreNames ns ++ .symbol ';' :: r = moreNames ns' ++ .symbol ';' :: r') :
    ns = ns' ∧ r = r' := by
  induction ns generalizing ns' with
  | nil => cases ns' <;> simp_all [moreNames]
  | cons n ns ih =>
    cases ns' with
    | nil => simp [moreNames] at h
    | cons n' ns' =>
      simp [moreNames] at h
      obtain ⟨rfl, hn⟩ := h
      obtain ⟨rfl, hrest⟩ := ih hn
      exact ⟨rfl, hrest⟩

/-- A list of names is determined by the tokens up to the semicolon. -/
lemma Names.unique {n n' : Names} {r r' : List TokenKind}
    (h : n.yield ++ .symbol ';' :: r = n'.yield ++ .symbol ';' :: r') : n = n' ∧ r = r' := by
  obtain ⟨type, first, more⟩ := n
  obtain ⟨type', first', more'⟩ := n'
  simp [Names.yield] at h
  obtain ⟨ht, rfl, hm⟩ := h
  obtain rfl := TypeName.token_injective ht
  obtain ⟨rfl, hrest⟩ := moreNames_unique hm
  exact ⟨rfl, hrest⟩

/-- Further parameters are determined by the tokens up to the parenthesis. -/
lemma moreParameters_unique {ps ps' : List Parameter} {r r' : List TokenKind}
    (h : moreParameters ps ++ .symbol ')' :: r = moreParameters ps' ++ .symbol ')' :: r') :
    ps = ps' ∧ r = r' := by
  induction ps generalizing ps' with
  | nil => cases ps' <;> simp_all [moreParameters]
  | cons p ps ih =>
    cases ps' with
    | nil => simp [moreParameters] at h
    | cons p' ps' =>
      obtain ⟨type, name⟩ := p
      obtain ⟨type', name'⟩ := p'
      simp [moreParameters, Parameter.yield] at h
      obtain ⟨ht, rfl, hp⟩ := h
      obtain rfl := TypeName.token_injective ht
      obtain ⟨rfl, hrest⟩ := ih hp
      exact ⟨rfl, hrest⟩

/-- Parameters are determined by the tokens up to the parenthesis. -/
lemma parameters_unique {ps ps' : List Parameter} {r r' : List TokenKind}
    (h : parametersYield ps ++ .symbol ')' :: r = parametersYield ps' ++ .symbol ')' :: r') :
    ps = ps' ∧ r = r' := by
  have hne : ∀ t : TypeName, t.token ≠ .symbol ')' := by
    intro t
    cases t <;> simp [TypeName.token]
  cases ps with
  | nil =>
    cases ps' with
    | nil => simpa [parametersYield] using h
    | cons p' ps' =>
      simp [parametersYield, Parameter.yield] at h
      exact absurd h.1.symm (hne _)
  | cons p ps =>
    cases ps' with
    | nil =>
      simp [parametersYield, Parameter.yield] at h
      exact absurd h.1 (hne _)
    | cons p' ps' =>
      obtain ⟨type, name⟩ := p
      obtain ⟨type', name'⟩ := p'
      simp [parametersYield, Parameter.yield] at h
      obtain ⟨ht, rfl, hp⟩ := h
      obtain rfl := TypeName.token_injective ht
      obtain ⟨rfl, hrest⟩ := moreParameters_unique hp
      exact ⟨rfl, hrest⟩

/-- A repetition is determined where each element is and what follows starts no element. -/
lemma repetition_unique {α : Type} {y : α → List TokenKind} {F : List TokenKind → Prop}
    (hy : ∀ x x' r r', y x ++ r = y x' ++ r' → x = x' ∧ r = r')
    (hf : ∀ x r, ¬ F (y x ++ r)) {xs xs' : List α} {r r' : List TokenKind}
    (h : xs.flatMap y ++ r = xs'.flatMap y ++ r') (hr : F r) (hr' : F r') :
    xs = xs' ∧ r = r' := by
  induction xs generalizing xs' with
  | nil =>
    cases xs' with
    | nil => exact ⟨rfl, h⟩
    | cons x' xs' =>
      rw [List.flatMap_nil, List.nil_append, List.flatMap_cons, List.append_assoc] at h
      exact absurd (h ▸ hr) (hf x' _)
  | cons x xs ih =>
    cases xs' with
    | nil =>
      rw [List.flatMap_nil, List.nil_append, List.flatMap_cons, List.append_assoc] at h
      exact absurd (h ▸ hr') (hf x _)
    | cons x' xs' =>
      rw [List.flatMap_cons, List.flatMap_cons, List.append_assoc, List.append_assoc] at h
      obtain ⟨rfl, hx⟩ := hy x x' _ _ h
      obtain ⟨rfl, hrest⟩ := ih hx
      exact ⟨rfl, hrest⟩

/-- A `var` is determined by its tokens. -/
lemma localsYield_unique (n n' : Names) (r r' : List TokenKind)
    (h : localsYield n ++ r = localsYield n' ++ r') : n = n' ∧ r = r' := by
  simp [localsYield] at h
  exact Names.unique h

/-- A declaration of the class is determined by its tokens. -/
lemma ClassVarDec.unique (d d' : ClassVarDec) (r r' : List TokenKind)
    (h : d.yield ++ r = d'.yield ++ r') : d = d' ∧ r = r' := by
  obtain ⟨storage, names⟩ := d
  obtain ⟨storage', names'⟩ := d'
  simp [ClassVarDec.yield] at h
  obtain ⟨hs, hn⟩ := h
  obtain rfl := Storage.keyword_injective hs
  obtain ⟨rfl, hrest⟩ := Names.unique hn
  exact ⟨rfl, hrest⟩

/-- A subroutine is determined by its tokens. -/
lemma Subroutine.unique (s s' : Subroutine) (r r' : List TokenKind)
    (h : s.yield ++ r = s'.yield ++ r') : s = s' ∧ r = r' := by
  obtain ⟨kind, result, name, params, locals, body⟩ := s
  obtain ⟨kind', result', name', params', locals', body'⟩ := s'
  simp [Subroutine.yield] at h
  obtain ⟨hk, ht, rfl, hp⟩ := h
  obtain rfl := kindKeyword_injective hk
  obtain rfl := resultToken_injective ht
  -- From here on each part is split off in front of what is known to follow it.
  obtain ⟨rfl, hl⟩ := parameters_unique hp
  obtain ⟨rfl, hb⟩ := repetition_unique (F := fun r => current r ≠ .keyword .varKw)
    localsYield_unique (fun n r hv => hv rfl) (List.cons.inj hl).2 (body.current_ne_var r)
    (body'.current_ne_var r')
  obtain ⟨rfl, hrest⟩ := Statements.unique body body' hb
  exact ⟨rfl, hrest⟩

/-- A class is determined by its tokens. -/
theorem ClassDec.yield_injective {c c' : ClassDec} (h : c.yield = c'.yield) : c = c' := by
  obtain ⟨name, vars, subs⟩ := c
  obtain ⟨name', vars', subs'⟩ := c'
  simp only [ClassDec.yield, List.cons.injEq, TokenKind.identifier.injEq, true_and] at h
  obtain ⟨rfl, hv⟩ := h
  obtain ⟨rfl, hs⟩ := repetition_unique
    (F := fun r => ∀ s : Storage, current r ≠ .keyword s.keyword)
    ClassVarDec.unique (fun d r hd => hd d.storage rfl) hv (current_subroutines_ne subs [])
    (current_subroutines_ne subs' [])
  obtain ⟨rfl, -⟩ := repetition_unique (F := fun r => current r = .symbol '}')
    Subroutine.unique (fun s r hc => by simp [Subroutine.yield] at hc) hs rfl rfl
  rfl

end Jack.Grammar
