import Jack.Proofs.Compile.Translation
import Jack.Proofs.Parse.Prefix

/-!
# The token that a compilation stops at

An error about the current token is raised at the first token that no class can go on with: the
tokens taken before it can be completed to a class, and together with it they cannot. Actions other
than taking a token leave the engine at its token, and the errors they raise are never about that
token.
-/

namespace Jack

open Grammar Script Jack.Action
open Vm (Instruction)

/-- Is this an error about the current token? -/
def Cause.isMismatch : Cause → Bool
  | .lexical _ | .unexpected _ _ => true
  | _ => false

/-- A step leaves an engine at its token, and fails for other reasons than that token. -/
structure Step.Stays (s : Step) (e : Engine) : Prop where
  tokens : s.engine.tokens = e.tokens
  last : s.engine.last = e.last
  error : ∀ err, s.error = some err → err.cause.isMismatch = false

namespace Engine

section
variable (e : Engine)

/-- Emitting instructions takes no token. -/
@[simp] lemma tokens_emitAll (is : List Instruction) : (e.emitAll is).tokens = e.tokens := by
  induction is generalizing e with
  | nil => rfl
  | cons i is ih => exact ih (e.emit i)

/-- Emitting instructions leaves the last token taken. -/
@[simp] lemma last_emitAll (is : List Instruction) : (e.emitAll is).last = e.last := by
  induction is generalizing e with
  | nil => rfl
  | cons i is ih => exact ih (e.emit i)

end

section
variable {e f : Engine}

/-- A step that succeeds stays where no token is taken. -/
lemma stays_ok (ht : f.tokens = e.tokens) (hl : f.last = e.last) : Step.Stays ⟨f, none⟩ e := by
  refine ⟨ht, hl, ?_⟩
  intro err h
  cases h

/-- A failure stays where no token is taken, if it is no mismatch. -/
lemma stays_fail {cause : Cause} {span : Option Span} (ht : f.tokens = e.tokens)
    (hl : f.last = e.last) (hc : cause.isMismatch = false) :
    Step.Stays ⟨f, some ⟨cause, span⟩⟩ e := by
  refine ⟨ht, hl, ?_⟩
  rintro err ⟨⟩
  exact hc

/-- Code that is produced first does not move the engine. -/
lemma stays_of_emitAll {s : Step} {is : List Instruction} (h : s.Stays (e.emitAll is)) :
    s.Stays e :=
  ⟨h.tokens.trans (tokens_emitAll e is), h.last.trans (last_emitAll e is), h.error⟩

end

variable (e : Engine)

/-- Declaring a name stays at the token. -/
lemma stays_declare (name type : String) (kind : SymbolKind) (span : Span) :
    (e.declare name type kind span).Stays e := by
  rw [declare]
  split
  · exact stays_ok rfl rfl
  · exact stays_fail rfl rfl rfl

/-- Entering a subroutine stays at the token. -/
lemma stays_enterSubroutine (kind : SubroutineKind) : (e.enterSubroutine kind).Stays e := by
  simp only [enterSubroutine]
  split
  · split
    · exact stays_ok rfl rfl
    · exact stays_fail rfl rfl rfl
  · exact stays_ok rfl rfl

/-- Using a variable stays at the token. -/
lemma stays_withVariable (name : String) (span : Span) (use : Symbol → List Instruction) :
    (e.withVariable name span use).Stays e := by
  rw [withVariable]
  split
  · exact stays_ok (tokens_emitAll e _) (last_emitAll e _)
  · exact stays_fail rfl rfl rfl

/-- Pushing a number stays at the token. -/
lemma stays_integer (value : Nat) (span : Span) : (e.integer value span).Stays e := by
  rw [integer]
  split
  · exact stays_ok rfl rfl
  · exact stays_fail rfl rfl rfl

/-- Appending characters stays at the token. -/
lemma stays_appendChars (span : Span) (cs : List Char) : (appendChars span e cs).Stays e := by
  induction cs generalizing e with
  | nil => exact stays_ok rfl rfl
  | cons c cs ih =>
    rw [appendChars]
    split
    · exact stays_of_emitAll (ih _)
    · exact stays_fail rfl rfl rfl

/-- Building a string stays at the token. -/
lemma stays_string (body : String) (span : Span) : (e.string body span).Stays e := by
  simp only [string]
  split
  · exact stays_of_emitAll (stays_appendChars _ span _)
  · exact stays_fail rfl rfl rfl

/-- Pushing the receiver of a call stays at the token. -/
lemma stays_receiver (callee : Callee) (span : Span) :
    Step.Stays ⟨e.receiver callee span, none⟩ e := by
  rw [receiver]
  split
  · split <;> exact stays_ok rfl rfl
  · exact stays_ok rfl rfl
  · exact stays_ok rfl rfl

/-- Making a call stays at the token. -/
lemma stays_call (callee : Callee) (count : Nat) (span : Span) :
    (e.call callee count span).Stays e := by
  simp only [call]
  split
  · exact stays_ok rfl rfl
  · exact stays_fail rfl rfl rfl

/-- Only taking a token moves the engine on. -/
lemma stays_perform {a : Action} (h : a.taken? = none) : (e.perform a).Stays e := by
  cases a with
  | consume token => cases h
  | declare name type kind span => exact e.stays_declare name type kind span
  | enterSubroutine kind => exact e.stays_enterSubroutine kind
  | enterBody kind name => exact stays_ok (tokens_emitAll _ _) (last_emitAll _ _)
  | missingReturn kind name span => exact stays_fail rfl rfl rfl
  | integer value span => exact e.stays_integer value span
  | string body span => exact e.stays_string body span
  | thisObject span =>
    simp only [perform, thisObject]
    split <;> exact stays_ok rfl rfl
  | require name span => exact e.stays_withVariable name span _
  | load name span => exact e.stays_withVariable name span _
  | store name span => exact e.stays_withVariable name span _
  | receiver callee span => exact e.stays_receiver callee span
  | countArgument count span =>
    simp only [perform]
    split
    · exact stays_ok rfl rfl
    · exact stays_fail rfl rfl rfl
  | call callee count span => exact e.stays_call callee count span
  | _ => exact stays_ok rfl rfl

/-- The engine after actions that work out stands behind the tokens they take. -/
lemma performAll_place {as : List Action} (h : (e.performAll as).error = none) :
    (e.performAll as).engine.tokens = e.tokens.drop (taken as).length ∧
      (e.performAll as).engine.last = ((taken as).getLast?.map Token.span).getD e.last := by
  induction as generalizing e with
  | nil => exact ⟨rfl, rfl⟩
  | cons a as ih =>
    rw [performAll] at h ⊢
    cases ha : a.taken? with
    | some token =>
      obtain rfl : a = .consume token := by cases a <;> cases ha; rfl
      have hr := ih (e.consume token) h
      refine ⟨hr.1.trans ?_, hr.2.trans ?_⟩
      · simp [consume, ha]
      · cases hg : (taken as).getLast? <;> simp [consume, ha, hg, List.getLast?_cons]
    | none =>
      have hs := e.stays_perform ha
      revert hs h
      obtain ⟨f, none | err⟩ := e.perform a <;> intro h hs
      · have hr := ih f h
        rw [hs.tokens, hs.last] at hr
        simpa [ha] using hr
      · cases h

/-- Actions never fail with a mismatch. -/
lemma performAll_error {as : List Action} {err : CompileError}
    (h : (e.performAll as).error = some err) : err.cause.isMismatch = false := by
  induction as generalizing e with
  | nil => cases h
  | cons a as ih =>
    rw [performAll] at h
    cases ha : a.taken? with
    | some token =>
      obtain rfl : a = .consume token := by cases a <;> cases ha; rfl
      exact ih (e.consume token) h
    | none =>
      have hs := e.stays_perform ha
      revert hs h
      obtain ⟨f, none | stop⟩ := e.perform a <;> intro h hs
      · exact ih f h
      · exact hs.error err h

/-- A compilation that fails at its current token has carried out its actions up to there. -/
lemma compileClass_mismatch {err : CompileError} (h : e.compileClass.1 = .error err)
    (hm : err.cause.isMismatch = true) :
    ∃ expected, (Script.ofTokens e.tokens e.last).failure = some expected ∧
      err = e.compileClass.2.unexpected expected ∧
      e.compileClass.2.tokens =
        e.tokens.drop (taken (Script.ofTokens e.tokens e.last).actions).length ∧
      e.compileClass.2.last =
        ((taken (Script.ofTokens e.tokens e.last).actions).getLast?.map Token.span).getD
          e.last := by
  rw [e.compileClass_snd]
  simp only [compileClass] at h
  split at h
  · next f stop hp =>
    have hs := performAll_error _ (congrArg Step.error hp)
    obtain rfl : stop = err := by simpa using h
    rw [hm] at hs
    cases hs
  · next f hp =>
    have hplace := performAll_place { e with openLabels := [] } (congrArg Step.error hp)
    rw [hp] at hplace ⊢
    split at h
    · next expected hf =>
      obtain rfl : f.unexpected expected = err := by simpa using h
      exact ⟨expected, hf, rfl, hplace⟩
    · cases h

end Engine

/-! ## The first token that no class goes on with -/

section
variable {tokens rest : List Token} {last : Span} {expected : Expected}

/-- Tokens that are not followed to their end are not the tokens of a class. -/
lemma yield_ne_taken (hf : (Script.ofTokens tokens last).failure = some expected)
    (hr : tokens = taken (Script.ofTokens tokens last).actions ++ rest)
    (he : currentKind rest = .eof) (c : ClassDec) :
    (taken (Script.ofTokens tokens last).actions).map Token.kind ≠ c.yield := by
  intro hy
  have hk : tokens.map Token.kind = c.yield ++ rest.map Token.kind := by
    rw [← hy, ← List.map_append, ← hr]
  have hc : current (rest.map Token.kind) = .eof := by
    cases rest with
    | nil => rfl
    | cons t ts => exact he
  have hb := bare_ofTokens tokens last
  rw [hk, c.ofKinds_yield hc] at hb
  have hn := congrArg Script.failure hb
  rw [Script.bare, hf] at hn
  cases hn

/-- The token at which the grammar is not followed any further cannot come next. -/
lemma not_taken_concat_prefix (hf : (Script.ofTokens tokens last).failure = some expected)
    {t : Token} (ht : ∀ rest', rest'.head? = some t →
      Script.ofTokens (taken (Script.ofTokens tokens last).actions ++ rest') last =
        Script.ofTokens tokens last) (c : ClassDec) :
    ¬ (taken (Script.ofTokens tokens last).actions ++ [t]).map Token.kind <+: c.yield := by
  rintro ⟨suffix, hy⟩
  -- The derivation would be followed up to the same token and fail there too.
  have hs := ht (t :: suffix.map TokenKind.bare) rfl
  have hb := bare_ofTokens
    (taken (Script.ofTokens tokens last).actions ++ t :: suffix.map TokenKind.bare) last
  have hk : (taken (Script.ofTokens tokens last).actions ++
      t :: suffix.map TokenKind.bare).map Token.kind = c.yield ++ [] := by
    rw [List.append_nil, ← hy]
    simp [Function.comp_def, TokenKind.bare]
  rw [hk, c.ofKinds_yield rfl, hs] at hb
  have hn := congrArg Script.failure hb
  rw [Script.bare, hf] at hn
  cases hn

end

/-- A mismatch is reported at the current token. -/
lemma Engine.span_unexpected (e : Engine) (expected : Expected) :
    (e.unexpected expected).span = some (currentSpan e.last e.tokens) := by
  rw [unexpected]
  split
  · next h => rw [h]; rfl
  · next t ts h =>
    rw [h]
    split <;> rfl

/-- An error about the current token is raised at the first token that no class goes on with, and
carries the span of that token. -/
theorem mismatch_at_first_unviable_token (o : Options) (tokens : List Token) (err : CompileError)
    (h : (Engine.start o tokens).compileClass.1 = .error err)
    (hm : (∃ e, err.cause = .lexical e) ∨
      ∃ expected found, err.cause = .unexpected expected found) :
    ∃ consumed rest, tokens = consumed ++ rest ∧
      (Engine.start o tokens).compileClass.2.tokens = rest ∧
      (∃ c : ClassDec, consumed.map Token.kind <+: c.yield) ∧
      (∀ t, rest.head? = some t → t.kind ≠ .eof →
        ∀ c : ClassDec, ¬ (consumed ++ [t]).map Token.kind <+: c.yield) ∧
      ((∀ t, rest.head? = some t → t.kind = .eof) →
        ∀ c : ClassDec, consumed.map Token.kind ≠ c.yield) ∧
      (∀ t, rest.head? = some t → err.span = some t.span) ∧
      (rest = [] → err.span = some ((consumed.getLast?.map Token.span).getD (.point .origin))) := by
  have hmis : err.cause.isMismatch = true := by
    obtain ⟨e, he⟩ | ⟨expected, found, he⟩ := hm <;> rw [he] <;> rfl
  obtain ⟨expected, hf, rfl, htokens, hlast⟩ := Engine.compileClass_mismatch _ h hmis
  obtain ⟨rest, hr, hl⟩ :=
    meetOnto_eq_of_head? tokens (Engine.start o tokens).last Goal.stack_wholeClass
  have hrest : (Engine.start o tokens).compileClass.2.tokens = rest := by
    apply htokens.trans
    exact (congrArg (List.drop _) hr).trans List.drop_left
  refine ⟨_, rest, hr, hrest, exists_yield_of_taken tokens _, ?_, ?_, ?_, ?_⟩
  · intro t ht _ c
    exact not_taken_concat_prefix hf (fun rest' h' => hl rest' (h'.trans ht.symm)) c
  · intro he c
    refine yield_ne_taken hf hr ?_ c
    cases rest with
    | nil => rfl
    | cons t ts => exact he t rfl
  · intro t ht
    rw [Engine.span_unexpected, hrest]
    cases rest with
    | nil => cases ht
    | cons u us =>
      cases ht
      rfl
  · rintro rfl
    rw [Engine.span_unexpected, hrest, hlast]
    rfl

/-- `class Main { function int one() { return 1 2; } }`, two bytes for each token. -/
def strayNumber : List Token :=
  [.keyword .classKw, .identifier "Main", .symbol '{', .keyword .functionKw, .keyword .intKw,
    .identifier "one", .symbol '(', .symbol ')', .symbol '{', .keyword .returnKw, .integer 1,
    .integer 2, .symbol ';', .symbol '}', .symbol '}'].mapIdx fun i (kind : TokenKind) =>
      ⟨kind, ⟨⟨2 * i, 1, 2 * i + 1⟩, ⟨2 * i + 1, 1, 2 * i + 2⟩⟩, ""⟩

/-- A number where a statement is expected is the token that no class goes on with. -/
theorem mismatch_at_stray_number :
    ∃ err, (Engine.start {} strayNumber).compileClass.1 = .error err ∧
      (∃ c : ClassDec, (strayNumber.take 11).map Token.kind <+: c.yield) ∧
      (∀ c : ClassDec, ¬ (strayNumber.take 12).map Token.kind <+: c.yield) ∧
      err.span = some ⟨⟨22, 1, 23⟩, ⟨23, 1, 24⟩⟩ := by
  let two : Token := ⟨.integer 2, ⟨⟨22, 1, 23⟩, ⟨23, 1, 24⟩⟩, ""⟩
  have he : (Engine.start {} strayNumber).compileClass.1 =
      .error ⟨.unexpected (.symbol ';') (some two), some two.span⟩ := by
    with_unfolding_all rfl
  have hrest : (Engine.start {} strayNumber).compileClass.2.tokens = strayNumber.drop 11 := by
    decide +kernel
  obtain ⟨consumed, rest, hs, rfl, hc, hn, -, hspan, -⟩ :=
    mismatch_at_first_unviable_token {} strayNumber _ he (.inr ⟨_, _, rfl⟩)
  rw [hrest] at hs hn hspan
  obtain rfl : strayNumber.take 11 = consumed :=
    List.append_cancel_right ((List.take_append_drop 11 strayNumber).trans hs)
  exact ⟨_, he, hc, hn two rfl (by decide), hspan two rfl⟩

end Jack
