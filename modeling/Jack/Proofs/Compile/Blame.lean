import Jack.Proofs.Compile.Terminals
import Jack.Proofs.Parse.Spans
import Jack.Proofs.Token.Positions

/-!
# The token that an error is about

Actions fail about the places they carry, and these are tokens taken before. A mismatch is about the
current token. So every error of a source is about one of its tokens (`Fails.exists_blamed`), and no
token up to that one is a lexical error, unless it is the one that is reported.
-/

namespace Jack

open Script Jack.Action

/-- Is a token a stretch of source that is no token? -/
def Token.isError (t : Token) : Bool :=
  match t.kind with
  | .error _ => true
  | _ => false

/-- The tokens that are errors are those of an error kind. -/
lemma Token.isError_eq_true_iff {t : Token} :
    t.isError = true ↔ ∃ cause, t.kind = .error cause := by
  unfold isError
  cases t.kind <;> simp

/-- A token that has an element in the parse tree is no error. -/
lemma Token.isError_of_element {t : Token} {e : Element} (h : t.kind.element? = some e) :
    t.isError = false := by
  rw [Bool.eq_false_iff, ne_eq, isError_eq_true_iff]
  rintro ⟨cause, hk⟩
  rw [hk] at h
  cases h

/-! ## Actions -/

/-- A step that fails does so about a place, and not because of a lexical error. -/
def Step.Blames (s : Step) (place : Option Span) : Prop :=
  ∀ err, s.error = some err → err.kind ≠ .lexical ∧ err.span = place ∧ place.isSome = true

/-- The object of a method is always declared. -/
lemma SymbolTable.exists_declare_this (t : SymbolTable) (type : String) :
    ∃ index after, t.startSubroutine.declare "this" type .argument = (.ok index, after) := by
  have hfree : Grammar.Variable.count .argument [] < Grammar.maxWord := by decide
  let this : Grammar.Variable := ⟨"this", type, .argument⟩
  obtain ⟨after, hd, -⟩ := Scope.holds_empty.declare_eq_ok (v := this) rfl List.not_mem_nil hfree
  have hs : t.startSubroutine.declare "this" type .argument =
      ((Scope.declare {} "this" type .argument).1,
        { t.startSubroutine with
          subroutineScope := (Scope.declare {} "this" type .argument).2 }) := rfl
  rw [hs, hd]
  exact ⟨_, _, rfl⟩

namespace Engine

section
variable {f : Engine} {place : Option Span} {span : Span}

/-- A step that succeeds blames nothing. -/
lemma blames_ok : Step.Blames ⟨f, none⟩ place := by
  rintro err ⟨⟩

/-- A failure blames the place it is given. -/
lemma blames_fail {cause : Cause} (h : cause.kind ≠ .lexical) :
    (f.fail cause span).Blames (some span) := by
  rintro err ⟨⟩
  exact ⟨h, rfl, rfl⟩

end

variable (e : Engine)

/-- A declaration that fails blames the name declared. -/
lemma blames_declare (name type : String) (kind : SymbolKind) (span : Span) :
    (e.declare name type kind span).Blames (some span) := by
  rw [declare]
  split
  · exact blames_ok
  · next cause symbols _ =>
    have hkind : (Cause.declaration cause).kind ≠ .lexical := by
      cases cause <;> exact ErrorKind.noConfusion
    exact blames_fail (f := { e with symbols := symbols }) hkind

/-- Entering a subroutine does not fail, as the object of a method is declared in an empty scope. -/
lemma blames_enterSubroutine (kind : SubroutineKind) : (e.enterSubroutine kind).Blames none := by
  simp only [enterSubroutine]
  split
  · obtain ⟨i, u, hd⟩ := e.symbols.exists_declare_this e.className
    simp only [hd]
    exact blames_ok
  · exact blames_ok

/-- A variable that is not declared is blamed where it is used. -/
lemma blames_withVariable (name : String) (span : Span) (use : Symbol → List Vm.Instruction) :
    (e.withVariable name span use).Blames (some span) := by
  rw [withVariable]
  split
  · exact blames_ok
  · exact blames_fail ErrorKind.noConfusion

/-- A number that is too large is blamed where it stands. -/
lemma blames_integer (value : Nat) (span : Span) :
    (e.integer value span).Blames (some span) := by
  rw [integer]
  split
  · exact blames_ok
  · exact blames_fail ErrorKind.noConfusion

/-- A character that is too large is blamed on its string. -/
lemma blames_appendChars (span : Span) (cs : List Char) :
    (appendChars span e cs).Blames (some span) := by
  induction cs generalizing e with
  | nil => exact blames_ok
  | cons c cs ih =>
    rw [appendChars]
    split
    · exact ih _
    · exact blames_fail ErrorKind.noConfusion

/-- A string that is too long, or has too large a character, is blamed where it stands. -/
lemma blames_string (body : String) (span : Span) : (e.string body span).Blames (some span) := by
  simp only [string]
  split
  · exact blames_appendChars _ span _
  · exact blames_fail ErrorKind.noConfusion

/-- A call with too many arguments is blamed where it stands. -/
lemma blames_call (callee : Callee) (count : Nat) (span : Span) :
    (e.call callee count span).Blames (some span) := by
  simp only [call]
  split
  · exact blames_ok
  · exact blames_fail ErrorKind.noConfusion

/-- An action fails about its own place. -/
lemma blames_perform (a : Action) : (e.perform a).Blames a.span? := by
  cases a with
  | declare name type kind span => exact e.blames_declare name type kind span
  | enterSubroutine kind => exact e.blames_enterSubroutine kind
  | missingReturn kind name span => exact blames_fail ErrorKind.noConfusion
  | integer value span => exact e.blames_integer value span
  | string body span => exact e.blames_string body span
  | require name span => exact e.blames_withVariable name span _
  | load name span => exact e.blames_withVariable name span _
  | store name span => exact e.blames_withVariable name span _
  | countArgument count span =>
    simp only [perform]
    split
    · exact blames_ok
    · exact blames_fail ErrorKind.noConfusion
  | call callee count span => exact e.blames_call callee count span
  | _ => exact blames_ok

/-- Actions fail about the place of one of them. -/
lemma performAll_blames {as : List Action} {err : CompileError}
    (h : (e.performAll as).error = some err) :
    err.kind ≠ .lexical ∧ ∃ span ∈ Action.spans as, err.span = some span := by
  induction as generalizing e with
  | nil => cases h
  | cons a as ih =>
    have hb := e.blames_perform a
    rw [performAll] at h
    rw [spans_cons]
    revert hb h
    obtain ⟨f, none | stop⟩ := e.perform a <;> intro h hb
    · obtain ⟨hk, span, hs, he⟩ := ih f h
      exact ⟨hk, span, List.mem_append_right _ hs, he⟩
    · obtain ⟨hk, hs, hsome⟩ := hb err h
      obtain ⟨span, hspan⟩ := Option.isSome_iff_exists.1 hsome
      refine ⟨hk, span, List.mem_append_left _ ?_, hs.trans hspan⟩
      rw [hspan]
      exact List.mem_singleton_self span

/-! ## Compilations -/

/-- A compilation fails about a token it has taken, or at the token behind those. -/
lemma compileClass_error_cases {err : CompileError} (h : e.compileClass.1 = .error err) :
    (err.kind ≠ .lexical ∧
      ∃ t ∈ taken (ofTokens e.tokens e.last).actions, err.span = some t.span) ∨
    ∃ (f : Engine) (expected : Expected), err = f.unexpected expected ∧
      f.tokens = e.tokens.drop (taken (ofTokens e.tokens e.last).actions).length := by
  simp only [compileClass] at h
  split at h
  · next f stop hp =>
    obtain rfl : stop = err := by simpa using h
    obtain ⟨hk, span, hs, hspan⟩ := performAll_blames _ (congrArg Step.error hp)
    obtain ⟨t, ht, rfl⟩ := exists_taken_of_mem_spans hs
    exact .inl ⟨hk, t, ht, hspan⟩
  · next f hp =>
    have hplace := performAll_place { e with openLabels := [] } (congrArg Step.error hp)
    rw [hp] at hplace
    split at h
    · next expected hf =>
      obtain rfl : f.unexpected expected = err := by simpa using h
      exact .inr ⟨f, expected, rfl, hplace.1⟩
    · cases h

/-- An error at the current token is lexical where that token is. -/
lemma unexpected_cases {f : Engine} {t : Token} {rest : List Token} (h : f.tokens = t :: rest)
    (expected : Expected) :
    (f.unexpected expected).span = some t.span ∧
      (t.isError = false ∧ (f.unexpected expected).kind ≠ .lexical ∨
        ∃ cause, t.kind = .error cause ∧ (f.unexpected expected).cause = .lexical cause) := by
  rw [unexpected, h]
  simp only
  split
  · next cause hk => exact ⟨rfl, .inr ⟨cause, hk, rfl⟩⟩
  · next hk =>
    refine ⟨rfl, .inl ⟨?_, ErrorKind.noConfusion⟩⟩
    rw [Bool.eq_false_iff, ne_eq, Token.isError_eq_true_iff]
    rintro ⟨cause, hc⟩
    exact hk cause hc

/-- Every error is about a token. No token before it is a lexical error, and if it is one itself,
that is what is reported. -/
lemma exists_blamed {err : CompileError} (h : e.compileClass.1 = .error err)
    (heof : ∃ t ∈ e.tokens, t.kind = .eof) :
    ∃ done t rest, e.tokens = done ++ t :: rest ∧ (∀ u ∈ done, u.isError = false) ∧
      err.span = some t.span ∧
      (t.isError = false ∧ err.kind ≠ .lexical ∨
        ∃ cause, t.kind = .error cause ∧ err.cause = .lexical cause) := by
  obtain ⟨rest, hr, -⟩ := meetOnto_eq_of_head? e.tokens e.last Goal.stack_wholeClass
  have htaken := exists_element_of_mem_taken e.tokens e.last Goal.stack_wholeClass
  change e.tokens = taken (ofTokens e.tokens e.last).actions ++ rest at hr
  change ∀ t ∈ taken (ofTokens e.tokens e.last).actions, _ at htaken
  have hcases := e.compileClass_error_cases h
  generalize taken (ofTokens e.tokens e.last).actions = done at hr htaken hcases
  have hdone : ∀ u ∈ done, u.isError = false := by
    intro u hu
    obtain ⟨el, he⟩ := htaken u hu
    exact Token.isError_of_element he
  obtain ⟨hk, t, ht, hspan⟩ | ⟨f, expected, rfl, hf⟩ := hcases
  · obtain ⟨before, after, rfl⟩ := List.append_of_mem ht
    rw [List.append_assoc, List.cons_append] at hr
    refine ⟨before, t, after ++ rest, hr, fun u hu => ?_, hspan, .inl ⟨hdone t ht, hk⟩⟩
    exact hdone u (List.mem_append_left _ hu)
  · rw [hr, List.drop_left] at hf
    cases rest with
    | nil =>
      -- The end of the input is among the tokens, and it is never taken.
      obtain ⟨t, ht, hk⟩ := heof
      rw [hr, List.append_nil] at ht
      obtain ⟨el, he⟩ := htaken t ht
      rw [hk] at he
      cases he
    | cons t rest =>
      obtain ⟨hspan, ht⟩ := unexpected_cases hf expected
      exact ⟨done, t, rest, hr, hdone, hspan, ht⟩

end Engine

/-! ## Sources -/

/-- The tokens of a source have the spans of its bytes. -/
lemma positioned_tokensOf (source : String) :
    Positioned [] (Text.Utf8.bytes source) (tokensOf source) := positioned_tokensOfBytes _

/-- The end of the input is the last token of a source, and no other one. -/
lemma exists_eof_tokensOf (source : String) :
    ∃ ts t, tokensOf source = ts ++ [t] ∧ t.kind = .eof ∧ ∀ u ∈ ts, u.kind ≠ .eof := by
  obtain ⟨ts, t, hts, hk, -, hu⟩ := (positioned_tokensOf source).exists_eof
  exact ⟨ts, t, hts, hk, fun u hm => (hu u hm).1⟩

/-- Every source has a token for its end. -/
lemma eof_mem_tokensOf (source : String) : ∃ t ∈ tokensOf source, t.kind = .eof := by
  obtain ⟨ts, t, hts, hk, -⟩ := exists_eof_tokensOf source
  refine ⟨t, ?_, hk⟩
  rw [hts]
  exact List.mem_concat_self

/-- A source does not compile, for the given reason, in one of the ways to compile it. -/
inductive Fails (o : Options) (source : String) (err : CompileError) : Prop where
  | plain : (compileSource o source).result = .error err → Fails o source err
  | recorded : (compileRecorded o source).result = .error err → Fails o source err
  | toVm : compileToVm o source = .error err → Fails o source err
  | toTree : compileToTree o source = .error err → Fails o source err

/-- All ways to compile a source fail in the same place, at the engine. -/
lemma Fails.exists_engine {o : Options} {source : String} {err : CompileError}
    (h : Fails o source err) :
    ∃ e : Engine, e.tokens = tokensOf source ∧ e.compileClass.1 = .error err := by
  have hmap {α β : Type} {f : α → β} {r : Except CompileError α} (hr : r.map f = .error err) :
      r = .error err := by
    cases r with
    | error stop =>
      cases hr
      rfl
    | ok a => cases hr
  cases h with
  | plain h => exact ⟨.start o (tokensOf source), rfl, h⟩
  | recorded h => exact ⟨(Engine.start o (tokensOf source)).recordTree, rfl, h⟩
  | toVm h => exact ⟨.start o (tokensOf source), rfl, hmap h⟩
  | toTree h => exact ⟨(Engine.start o (tokensOf source)).recordTree, rfl, hmap h⟩

/-- Every error of a source is about one of its tokens. -/
lemma Fails.exists_blamed {o : Options} {source : String} {err : CompileError}
    (h : Fails o source err) :
    ∃ done t rest, tokensOf source = done ++ t :: rest ∧ (∀ u ∈ done, u.isError = false) ∧
      err.span = some t.span ∧
      (t.isError = false ∧ err.kind ≠ .lexical ∨
        ∃ cause, t.kind = .error cause ∧ err.cause = .lexical cause) := by
  obtain ⟨e, htokens, he⟩ := h.exists_engine
  have heof := eof_mem_tokensOf source
  rw [← htokens] at heof ⊢
  exact e.exists_blamed he heof

/-- Compiling a source fails with the errors of the engine over its tokens. -/
lemma compileToVm_eq_error_iff {o : Options} {source : String} {err : CompileError} :
    compileToVm o source = .error err ↔
      (Engine.start o (tokensOf source)).compileClass.1 = .error err := by
  simp only [compileToVm, compileSource]
  cases (Engine.start o (tokensOf source)).compileClass.1 <;> simp [Except.map]

/-- Only the last token is the end of the input. -/
lemma kind_ne_eof_of_append {source : String} {before after : List Token} {t : Token}
    (h : tokensOf source = before ++ t :: after) : ∀ u ∈ before, u.kind ≠ .eof := by
  obtain ⟨ts, eof, hts, -, hne⟩ := exists_eof_tokensOf source
  have hl := congrArg List.length (h.symm.trans hts)
  rw [List.length_append, List.length_append, List.length_cons, List.length_singleton] at hl
  have hp := List.prefix_of_prefix_length_le ⟨_, h.symm⟩ ⟨_, hts.symm⟩ (by omega)
  exact fun u hu => hne u (hp.subset hu)

/-- A source with a lexical error does not compile. -/
lemma exists_error_of_append {o : Options} {source : String} {before after : List Token} {t : Token}
    (h : tokensOf source = before ++ t :: after) (ht : t.isError = true) :
    ∃ err, compileToVm o source = .error err := by
  simp only [compileToVm_eq_error_iff]
  cases hc : (Engine.start o (tokensOf source)).compileClass.1 with
  | error err => exact ⟨err, rfl⟩
  | ok name =>
    have hf : (ofTokens (tokensOf source) nowhere).failure = none :=
      ((Engine.start o (tokensOf source)).compileClass_eq_ok_iff.1 ⟨name, hc⟩).2
    obtain ⟨rest, hr, -⟩ := meetOnto_eq_of_head? (tokensOf source) nowhere Goal.stack_wholeClass
    -- All tokens but the end of the input are taken, and no lexical error is.
    have hall := taken_eq_takeWhile hf ⟨rest, hr.symm⟩
    obtain ⟨cause, hk⟩ := Token.isError_eq_true_iff.1 ht
    have hmem : t ∈ (tokensOf source).takeWhile (·.kind ≠ .eof) := by
      rw [h, List.takeWhile_append_of_pos (by simpa using kind_ne_eof_of_append h)]
      simp [hk]
    rw [← hall] at hmem
    obtain ⟨e, he⟩ := exists_element_of_mem_taken _ _ Goal.stack_wholeClass t hmem
    rw [Token.isError_of_element he] at ht
    cases ht

/-- Tokens that are neither errors nor the end of the input are listed. -/
lemma listed_of_tokensOf {source : String} {t : Token} (ht : t ∈ tokensOf source)
    (he : t.isError = false) (hk : t.kind ≠ .eof) : t.kind.Listed := by
  have hel : ∃ e, t.kind.element? = some e := by
    unfold Token.isError at he
    revert he hk
    cases t.kind <;> simp [TokenKind.element?]
  obtain ⟨e, hel⟩ := hel
  exact ⟨e, hel, newline_not_mem_of_tokensOf source t ht e hel⟩

/-- The listing fails at the first lexical error. -/
lemma tokenListing_eq_error {source : String} {before after : List Token} {t : Token}
    {cause : LexError} (h : tokensOf source = before ++ t :: after)
    (hb : ∀ u ∈ before, u.isError = false) (hk : t.kind = .error cause) :
    tokenListing (tokensOf source) = .error ⟨cause, t⟩ := by
  have hlisted : ∀ u ∈ before, u.kind.Listed := by
    intro u hu
    have hm : u ∈ tokensOf source := by
      rw [h]
      exact List.mem_append_left _ hu
    exact listed_of_tokensOf hm (hb u hu) (kind_ne_eof_of_append h u hu)
  rw [h, tokenListing, elementsOnto_append hlisted]
  simp [elementsOnto, hk, Except.map]

/-- Tokens without an error can be listed. -/
lemma exists_tokenListing {source : String} (h : ∀ t ∈ tokensOf source, t.isError = false) :
    ∃ listing, tokenListing (tokensOf source) = .ok listing := by
  obtain ⟨ts, eof, hts, heof, hne⟩ := exists_eof_tokensOf source
  have hlisted : ∀ t ∈ ts, t.kind.Listed := by
    intro t ht
    have hm : t ∈ tokensOf source := by
      rw [hts]
      exact List.mem_append_left _ ht
    exact listed_of_tokensOf hm (h t hm) (hne t ht)
  rw [hts]
  exact ⟨_, tokenListing_eq hlisted heof⟩

/-- Both tools find the first lexical error of a source. The listing always reports it. A
compilation reports it in the same words and at the same place, or fails for another reason that
stands before it. -/
theorem lexical_errors_reported_alike (o : Options) (source : String) :
    match (tokensOf source).find? Token.isError with
    | some t =>
      ∃ cause, t.kind = .error cause ∧
        tokenListing (tokensOf source) = .error ⟨cause, t⟩ ∧
        ∃ err span, compileToVm o source = .error err ∧ err.span = some span ∧
          (err.kind = .lexical → err.message = cause.message ∧ span = t.span) ∧
          (err.kind ≠ .lexical → span.stop.offset ≤ t.span.start.offset)
    | none =>
      (∃ listing, tokenListing (tokensOf source) = .ok listing) ∧
        ∀ err, Fails o source err → err.kind ≠ .lexical := by
  cases hfind : (tokensOf source).find? Token.isError with
  | some t =>
    obtain ⟨ht, before, after, hts, hb⟩ := List.find?_eq_some_iff_append.1 hfind
    replace hb : ∀ u ∈ before, u.isError = false := by simpa using hb
    obtain ⟨cause, hk⟩ := Token.isError_eq_true_iff.1 ht
    obtain ⟨err, herr⟩ := exists_error_of_append (o := o) hts ht
    obtain ⟨done, u, rest, hu, hd, hspan, hblame⟩ := (Fails.toVm herr).exists_blamed
    -- No token before `u` is a lexical error, so the first one is `u` or comes behind it.
    have hfirst : (u :: rest).find? Token.isError = some t := by
      have hnone : done.find? Token.isError = none := by simpa using hd
      rwa [hu, List.find?_append, hnone, Option.none_or] at hfind
    refine ⟨cause, hk, tokenListing_eq_error hts hb hk, err, u.span, herr, hspan, ?_⟩
    obtain ⟨hue, hkind⟩ | ⟨cause', hk', hcause⟩ := hblame
    · refine ⟨fun h => absurd h hkind, fun _ => ?_⟩
      have hrest : t ∈ rest := by
        rw [List.find?_cons, hue] at hfirst
        exact List.mem_of_find?_eq_some hfirst
      have hp := (positioned_tokensOf source).pairwise
      rw [hu, List.pairwise_append, List.pairwise_cons] at hp
      exact hp.2.1.1 t hrest
    · have hue : u.isError = true := Token.isError_eq_true_iff.2 ⟨cause', hk'⟩
      rw [List.find?_cons_of_pos hue] at hfirst
      obtain rfl : u = t := Option.some.inj hfirst
      obtain rfl : cause = cause' := TokenKind.error.inj (hk.symm.trans hk')
      refine ⟨fun _ => ⟨?_, rfl⟩, fun h => absurd ?_ h⟩
      · rw [CompileError.message, hcause]
        rfl
      · rw [CompileError.kind, hcause]
        rfl
  | none =>
    have hno : ∀ t ∈ tokensOf source, t.isError = false := by simpa using hfind
    refine ⟨exists_tokenListing hno, fun err herr => ?_⟩
    obtain ⟨done, u, rest, hu, -, -, hblame⟩ := herr.exists_blamed
    obtain ⟨-, hkind⟩ | ⟨cause, hk, -⟩ := hblame
    · exact hkind
    · have hue := hno u (by rw [hu]; exact List.mem_append_right _ List.mem_cons_self)
      rw [Token.isError_eq_true_iff.2 ⟨cause, hk⟩] at hue
      cases hue

end Jack
