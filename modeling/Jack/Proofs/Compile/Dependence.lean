import Jack.Proofs.Compile.Recording

/-!
# What a compilation depends on

Carrying out an action looks neither at the tokens ahead nor at the recorded tree: with other
tokens and another tree the same happens (`Engine.perform_swap`). So recording changes nothing but
the tree. Only following the grammar looks at tokens, at one of them at a time, so a compilation
that fails has not looked further than the token it fails at. Of tokens only the kinds matter.
-/

namespace Jack

open Script Jack.Action
open Vm (Instruction)

/-! ## Other tokens, another tree -/

/-- The engine with other tokens ahead and another tree. -/
def Engine.swap (e : Engine) (tokens : List Token) (tree : Option Tree) : Engine :=
  { e with tokens := tokens, tree := tree }

/-- A step that leads to the engine with other tokens and another tree. -/
def Step.swap (s : Step) (tokens : List Token) (tree : Option Tree) : Step :=
  ⟨s.engine.swap tokens tree, s.error⟩

/-- Does an action leave the tokens and the tree alone? -/
def Action.Blind : Action → Prop
  | .consume _ | .openNode _ | .closeNode _ => False
  | _ => True

namespace Engine

variable (e : Engine) (ts : List Token) (t : Option Tree)

/-- The options stay. -/
lemma swap_options : (e.swap ts t).options = e.options := rfl

/-- The symbols stay. -/
lemma swap_symbols : (e.swap ts t).symbols = e.symbols := rfl

/-- The name of the class stays. -/
lemma swap_className : (e.swap ts t).className = e.className := rfl

/-- What a call goes to depends on neither tokens nor tree. -/
lemma swap_target (callee : Callee) : (e.swap ts t).target callee = e.target callee := by
  cases callee <;> rfl

/-- Instructions are emitted whatever tokens and tree there are. -/
lemma swap_emitAll (is : List Instruction) :
    (e.swap ts t).emitAll is = (e.emitAll is).swap ts t := by
  induction is generalizing e with
  | nil => rfl
  | cons i is ih => exact ih (e.emit i)

/-- A name is declared whatever tokens and tree there are. -/
lemma swap_declare (name type : String) (kind : SymbolKind) (span : Span) :
    (e.swap ts t).declare name type kind span = (e.declare name type kind span).swap ts t := by
  rw [declare, declare, swap_symbols]
  split <;> rfl

/-- A subroutine is entered whatever tokens and tree there are. -/
lemma swap_enterSubroutine (kind : SubroutineKind) :
    (e.swap ts t).enterSubroutine kind = (e.enterSubroutine kind).swap ts t := by
  simp only [enterSubroutine, swap_symbols, swap_className]
  split
  · split <;> rfl
  · rfl

/-- A body is entered whatever tokens and tree there are. -/
lemma swap_enterBody (kind : SubroutineKind) (name : String) :
    (e.swap ts t).enterBody kind name = (e.enterBody kind name).swap ts t := by
  have hp : (e.swap ts t).prologue kind = e.prologue kind := by cases kind <;> rfl
  rw [enterBody, hp]
  exact swap_emitAll ((e.note _).emit _) ts t (e.prologue kind)

/-- A variable is used whatever tokens and tree there are. -/
lemma swap_withVariable (name : String) (span : Span) (use : Symbol → List Instruction) :
    (e.swap ts t).withVariable name span use = (e.withVariable name span use).swap ts t := by
  rw [withVariable, withVariable, swap_symbols]
  split
  · rw [swap_emitAll]
    rfl
  · rfl

/-- A number is pushed whatever tokens and tree there are. -/
lemma swap_integer (value : Nat) (span : Span) :
    (e.swap ts t).integer value span = (e.integer value span).swap ts t := by
  rw [integer, integer, swap_options]
  split <;> rfl

/-- Characters are appended whatever tokens and tree there are. -/
lemma swap_appendChars (span : Span) (cs : List Char) :
    appendChars span (e.swap ts t) cs = (appendChars span e cs).swap ts t := by
  induction cs generalizing e with
  | nil => rfl
  | cons c cs ih =>
    rw [appendChars, appendChars, swap_options]
    split
    · rw [swap_emitAll]
      exact ih _
    · rfl

/-- A string is built whatever tokens and tree there are. -/
lemma swap_string (body : String) (span : Span) :
    (e.swap ts t).string body span = (e.string body span).swap ts t := by
  simp only [string, swap_options]
  split
  · rw [swap_emitAll]
    exact swap_appendChars _ ts t span _
  · rfl

/-- Notes that are made in functions only. -/
lemma swap_noteInFunction (event : Event) :
    (if (e.swap ts t).kind = .function then (e.swap ts t).note event else e.swap ts t) =
      (if e.kind = .function then e.note event else e).swap ts t := by
  by_cases hk : e.kind = .function
  · have hk' : (e.swap ts t).kind = .function := hk
    rw [if_pos hk, if_pos hk']
    rfl
  · have hk' : ¬ (e.swap ts t).kind = .function := hk
    rw [if_neg hk, if_neg hk']

/-- The object is pushed whatever tokens and tree there are. -/
lemma swap_thisObject (span : Span) :
    (e.swap ts t).thisObject span = (e.thisObject span).swap ts t := by
  simp only [thisObject, swap_noteInFunction]
  rfl

/-- The receiver of a call is pushed whatever tokens and tree there are. -/
lemma swap_receiver (callee : Callee) (span : Span) :
    (e.swap ts t).receiver callee span = (e.receiver callee span).swap ts t := by
  simp only [receiver, swap_target, swap_noteInFunction]
  split <;> rfl

/-- A call is made whatever tokens and tree there are. -/
lemma swap_call (callee : Callee) (count : Nat) (span : Span) :
    (e.swap ts t).call callee count span = (e.call callee count span).swap ts t := by
  simp only [call, swap_target]
  split <;> rfl

/-- An action that leaves tokens and tree alone does not look at them either. -/
lemma perform_swap {a : Action} (h : a.Blind) :
    (e.swap ts t).perform a = (e.perform a).swap ts t := by
  cases a with
  | consume _ | openNode _ | closeNode _ => exact h.elim
  | declare name type kind span => exact e.swap_declare ts t name type kind span
  | enterSubroutine kind => exact e.swap_enterSubroutine ts t kind
  | enterBody kind name => exact congrArg (Step.mk · none) (e.swap_enterBody ts t kind name)
  | integer value span => exact e.swap_integer ts t value span
  | string body span => exact e.swap_string ts t body span
  | thisObject span => exact congrArg (Step.mk · none) (e.swap_thisObject ts t span)
  | require name span => exact e.swap_withVariable ts t name span _
  | load name span => exact e.swap_withVariable ts t name span _
  | store name span => exact e.swap_withVariable ts t name span _
  | receiver callee span => exact congrArg (Step.mk · none) (e.swap_receiver ts t callee span)
  | operate op => cases op <;> rfl
  | countArgument count span =>
    simp only [perform]
    split <;> rfl
  | call callee count span => exact e.swap_call ts t callee count span
  | _ => rfl

/-- A blind action leaves the tokens and the tree. -/
lemma perform_eq_swap {a : Action} (h : a.Blind) :
    e.perform a = (e.perform a).swap e.tokens e.tree := e.perform_swap e.tokens e.tree h

/-! ## Scripts -/

/-- What comes out of a script. -/
def follow (s : Script) : Except CompileError String × Engine :=
  match e.performAll s.actions with
  | ⟨f, some err⟩ => (.error err, f)
  | ⟨f, none⟩ =>
    match s.failure with
    | some expected => (.error (f.unexpected expected), f)
    | none => (.ok f.className, f)

/-- Compiling a class follows the script of the tokens, with no label open. -/
lemma compileClass_eq_follow :
    e.compileClass = follow { e with openLabels := [] } (ofTokens e.tokens e.last) := rfl

/-- Actions are carried out up to a place and then from there on. -/
lemma performAll_append (as bs : List Action) :
    e.performAll (as ++ bs) =
      match e.performAll as with
      | ⟨f, none⟩ => f.performAll bs
      | stopped => stopped := by
  induction as generalizing e with
  | nil => rfl
  | cons a as ih =>
    rw [List.cons_append, performAll, performAll]
    obtain ⟨f, none | err⟩ := e.perform a
    · exact ih f
    · rfl

section
variable {e} {f : Engine} {as : List Action} {err : CompileError}

/-- Actions that fail decide how the script with them in front ends. -/
lemma follow_of_error (h : e.performAll as = ⟨f, some err⟩) (s : Script) :
    e.follow (Script.after as s) = (.error err, f) := by
  simp only [follow, Script.after, performAll_append, h]

/-- Behind actions that succeed the script is followed as it is. -/
lemma follow_of_none (h : e.performAll as = ⟨f, none⟩) (s : Script) :
    e.follow (Script.after as s) = f.follow s := by
  simp only [follow, Script.after, performAll_append, h]

end

/-! ## The tree -/

/-- The engine without its tree. -/
def untreed : Engine := e.swap e.tokens none

/-- Without a tree every action does the same. -/
lemma perform_untreed (a : Action) :
    e.untreed.perform a = ⟨(e.perform a).engine.untreed, (e.perform a).error⟩ := by
  by_cases h : a.Blind
  · have ht : (e.perform a).engine.tokens = e.tokens :=
      congrArg (·.engine.tokens) (e.perform_eq_swap h)
    rw [untreed, e.perform_swap e.tokens none h, untreed, ht]
    rfl
  · cases a with
    | consume _ | openNode _ | closeNode _ => rfl
    | _ => exact absurd trivial h

/-- Without a tree all actions together do the same. -/
lemma performAll_untreed (as : List Action) :
    e.untreed.performAll as = ⟨(e.performAll as).engine.untreed, (e.performAll as).error⟩ := by
  induction as generalizing e with
  | nil => rfl
  | cons a as ih =>
    rw [performAll, perform_untreed, performAll]
    obtain ⟨f, none | err⟩ := e.perform a
    · exact ih f
    · rfl

/-- Without a tree a script is followed in the same way. -/
lemma follow_untreed (s : Script) :
    e.untreed.follow s = ((e.follow s).1, (e.follow s).2.untreed) := by
  rw [follow, performAll_untreed, follow]
  obtain ⟨f, none | err⟩ := e.performAll s.actions
  · cases s.failure <;> rfl
  · rfl

/-- Without a tree the same comes out of a compilation. -/
lemma compileClass_untreed :
    e.untreed.compileClass = (e.compileClass.1, e.compileClass.2.untreed) := by
  rw [compileClass_eq_follow, compileClass_eq_follow]
  exact follow_untreed { e with openLabels := [] } (ofTokens e.tokens e.last)

end Engine

/-- Recording the tree changes neither the result of a compilation nor the code. -/
theorem recording_transparent (o : Options) :
    (∀ source,
      ((∃ tree, compileToTree o source = .ok tree) ↔
        ∃ program, compileToVm o source = .ok program) ∧
      ∀ err, compileToTree o source = .error err ↔ compileToVm o source = .error err) ∧
    ∀ tokens,
      (Engine.start o tokens).recordTree.compileClass.1 = (Engine.start o tokens).compileClass.1 ∧
      (Engine.start o tokens).recordTree.compileClass.2.code =
        (Engine.start o tokens).compileClass.2.code := by
  have h : ∀ tokens, (Engine.start o tokens).compileClass =
      ((Engine.start o tokens).recordTree.compileClass.1,
        (Engine.start o tokens).recordTree.compileClass.2.untreed) :=
    fun tokens => (Engine.start o tokens).recordTree.compileClass_untreed
  refine ⟨fun source => ?_, fun tokens => ?_⟩
  · simp only [compileToTree, compileToVm, compileRecorded, compileSource, h]
    cases (Engine.start o (tokensOf source)).recordTree.compileClass.1 with
    | ok name => simp [Except.map]
    | error err => simp [Except.map]
  · rw [h]
    exact ⟨rfl, rfl⟩

/-! ## Tokens further ahead -/

namespace Engine

variable (e : Engine) (us : List Token)

/-- The engine with other tokens ahead. -/
def ahead : Engine := e.swap us e.tree

/-- An action that takes no token does the same with other tokens ahead. -/
lemma perform_ahead {a : Action} (h : a.taken? = none) :
    (e.ahead us).perform a = ⟨(e.perform a).engine.ahead us, (e.perform a).error⟩ := by
  by_cases hb : a.Blind
  · have ht : (e.perform a).engine.tree = e.tree := congrArg (·.engine.tree) (e.perform_eq_swap hb)
    rw [ahead, e.perform_swap us e.tree hb, ahead, ht]
    rfl
  · cases a with
    | consume token => cases h
    | openNode _ | closeNode _ => rfl
    | _ => exact absurd trivial hb

/-- Actions that take no token do the same whatever tokens are ahead. -/
lemma performAll_ahead {as : List Action} (h : taken as = []) :
    (e.ahead us).performAll as = ⟨(e.performAll as).engine.ahead us, (e.performAll as).error⟩ := by
  induction as generalizing e with
  | nil => rfl
  | cons a as ih =>
    rw [taken_cons, List.append_eq_nil_iff, Option.toList_eq_nil_iff] at h
    rw [performAll, e.perform_ahead us h.1, performAll]
    obtain ⟨f, none | err⟩ := e.perform a
    · exact ih f h.2
    · rfl

/-- A mismatch is reported by the first of the tokens ahead. -/
lemma unexpected_ahead (expected : Expected) {us : List Token} (h : us.head? = e.tokens.head?) :
    (e.ahead us).unexpected expected = e.unexpected expected := by
  have hu : (e.ahead us).tokens = us := rfl
  rw [unexpected, unexpected, hu]
  cases us with
  | nil =>
    rw [List.head?_nil, eq_comm, List.head?_eq_none_iff] at h
    rw [h]
    rfl
  | cons t us =>
    rw [List.head?_cons, eq_comm] at h
    obtain ⟨ts, ht⟩ := List.head?_eq_some_iff.1 h
    rw [ht]

/-- Following a script over tokens fails, and it does so in the same way over all tokens that agree
with these up to the token it fails at. The script is that of the tokens it is given. -/
def FailsAlike (tokens : List Token) (s : List Token → Script) (err : CompileError)
    (f : Engine) : Prop :=
  ∃ m ≤ tokens.length, f.tokens = tokens.drop m ∧
    ∀ us : List Token, (∀ i ≤ m, us[i]? = tokens[i]?) →
      (e.ahead us).follow (s us) = (.error err, f.ahead (us.drop m))

/-- Tokens that agree up to some position have the same first token. -/
lemma head?_of_agree {ts us : List Token} {m : Nat} (h : ∀ i ≤ m, us[i]? = ts[i]?) :
    us.head? = ts.head? := by
  rw [List.head?_eq_getElem?, List.head?_eq_getElem?]
  exact h 0 (Nat.zero_le m)

namespace FailsAlike

variable {e} {f : Engine} {tokens : List Token} {s : List Token → Script} {err : CompileError}

/-- Only scripts of tokens with the same first one matter. -/
lemma congr {s' : List Token → Script} (h : e.FailsAlike tokens s err f)
    (hs : ∀ us, us.head? = tokens.head? → s' us = s us) : e.FailsAlike tokens s' err f := by
  obtain ⟨m, hm, hf, hu⟩ := h
  refine ⟨m, hm, hf, fun us hus => ?_⟩
  rw [hs us (head?_of_agree hus)]
  exact hu us hus

/-- What fails before a token is taken fails at the first token. -/
lemma at_once (ht : f.tokens = tokens)
    (h : ∀ us, us.head? = tokens.head? → (e.ahead us).follow (s us) = (.error err, f.ahead us)) :
    e.FailsAlike tokens s err f :=
  ⟨0, Nat.zero_le _, ht, fun us hus => h us (head?_of_agree hus)⟩

/-- Actions that take no token fail at once or lead on. -/
lemma after_actions (s : List Token → Script) {as : List Action} (hq : taken as = [])
    (ht : e.tokens = tokens)
    (h : e.follow (Script.after as (s tokens)) = (.error err, f))
    (hon : ∀ g : Engine, g.tokens = tokens → g.last = e.last →
      g.follow (s tokens) = (.error err, f) → g.FailsAlike tokens s err f) :
    e.FailsAlike tokens (fun us => Script.after as (s us)) err f := by
  have ha (us : List Token) := e.performAll_ahead us hq
  -- The engine is its own variant over its own tokens, which are therefore left alone.
  have hk : (e.performAll as).engine.tokens = tokens :=
    (congrArg (·.engine.tokens) (ha e.tokens)).trans ht
  cases hp : e.performAll as with
  | mk g r =>
    rw [hp] at ha hk
    cases r with
    | some stop =>
      rw [follow_of_error hp, Prod.mk.injEq, Except.error.injEq] at h
      obtain ⟨rfl, rfl⟩ := h
      exact at_once hk fun us _ => follow_of_error (ha us) (s us)
    | none =>
      have hl := (e.performAll_place (by rw [hp])).2
      rw [hp, hq] at hl
      rw [follow_of_none hp] at h
      obtain ⟨m, hm, hf, hu⟩ := hon g hk hl h
      refine ⟨m, hm, hf, fun us hus => ?_⟩
      rw [follow_of_none (ha us)]
      exact hu us hus

/-- A token that is taken is the same over all tokens that agree. -/
lemma consume (s : List Token → Script) {token : Token} {rest : List Token}
    (h : (e.consume token).FailsAlike rest s err f) :
    e.FailsAlike (token :: rest) (fun us => Script.after [.consume token] (s us.tail)) err f := by
  obtain ⟨m, hm, hf, hu⟩ := h
  refine ⟨m + 1, Nat.succ_le_succ hm, hf, fun us hus => ?_⟩
  cases us with
  | nil => cases hus 0 (Nat.zero_le _)
  | cons u us => exact hu us fun i hi => hus (i + 1) (Nat.succ_le_succ hi)

end FailsAlike

/-- A script that fails does so in the same way where only tokens behind the one it fails at are
different. -/
lemma failsAlike_meetOnto (tokens : List Token) (last : Span) {goals : List Goal}
    (hs : Goal.Stack goals) {e f : Engine} {err : CompileError} (ht : e.tokens = tokens)
    (hl : e.last = last) (h : e.follow (meetOnto tokens last goals #[]) = (.error err, f)) :
    e.FailsAlike tokens (fun us => meetOnto us last goals #[]) err f := by
  -- Along the steps of the script: each looks at the first token only, and the engine goes with it.
  induction tokens, last, goals using meetOnto_induction generalizing e with
  | nil tokens last => simp [follow, performAll] at h
  | skip tokens last goal goals actions new hp ih =>
    obtain ⟨hstack, hq⟩ := hs.of_skip hp
    let on (us : List Token) : Script := meetOnto us last (new ++ goals) #[]
    have hon : ∀ g : Engine, g.tokens = tokens → g.last = e.last →
        g.follow (on tokens) = (.error err, f) → g.FailsAlike tokens on err f :=
      fun g hg hgl hgf => ih hstack hg (hgl.trans hl) hgf
    rw [meetOnto_skip hp] at h
    refine (FailsAlike.after_actions on hq ht h hon).congr fun us hh => ?_
    rw [← currentKind_eq_of_head? hh, ← currentSpan_eq_of_head? hh] at hp
    exact meetOnto_skip hp
  | take token rest last goal goals actions new hp ih =>
    obtain ⟨hstack, hq⟩ := hs.of_take hp
    let on (us : List Token) : Script :=
      Script.after [.consume token] (meetOnto us.tail token.span (new ++ goals) #[])
    have hon : ∀ g : Engine, g.tokens = token :: rest → g.last = e.last →
        g.follow (on (token :: rest)) = (.error err, f) →
        g.FailsAlike (token :: rest) on err f := by
      intro g hg _ hgf
      apply FailsAlike.consume fun us => meetOnto us token.span (new ++ goals) #[]
      apply ih hstack
      · rw [Engine.consume, hg]
        rfl
      · rfl
      · exact hgf
    rw [meetOnto_take hp, ← Script.after_after] at h
    refine (FailsAlike.after_actions on hq ht h hon).congr fun us hh => ?_
    obtain ⟨us', rfl⟩ := List.head?_eq_some_iff.1 hh
    rw [← currentKind_eq_of_head? hh, ← currentSpan_eq_of_head? hh] at hp
    rw [meetOnto_take hp, ← Script.after_after]
    rfl
  | reject tokens last goal goals actions expected hp =>
    have hq : taken actions = [] := by
      have ha := hs.taken_actions (currentKind tokens) (currentSpan last tokens)
      rwa [hp] at ha
    have hr : ∀ us, us.head? = tokens.head? →
        meetOnto us last (goal :: goals) #[] = Script.after actions ⟨[], some expected⟩ := by
      intro us hh
      rw [← currentKind_eq_of_head? hh, ← currentSpan_eq_of_head? hh] at hp
      rw [meetOnto_reject hp]
      simp [Script.after]
    have hon : ∀ g : Engine, g.tokens = tokens → g.last = e.last →
        g.follow ⟨[], some expected⟩ = (.error err, f) →
        g.FailsAlike tokens (fun _ => ⟨[], some expected⟩) err f := by
      intro g hg _ hgf
      obtain ⟨rfl, rfl⟩ : g.unexpected expected = err ∧ g = f := by
        simpa [follow, performAll] using hgf
      refine FailsAlike.at_once hg fun us hh => ?_
      rw [← hg] at hh
      rw [← g.unexpected_ahead expected hh]
      rfl
    rw [hr tokens rfl] at h
    exact (FailsAlike.after_actions _ hq ht h hon).congr hr

end Engine

/-- An engine before its first token, which records its tree or not. -/
def Engine.fresh (o : Options) (recording : Bool) (tokens : List Token) : Engine :=
  if recording then (Engine.start o tokens).recordTree else Engine.start o tokens

/-- A fresh engine has the tokens it is given. -/
lemma Engine.tokens_fresh (o : Options) (recording : Bool) (tokens : List Token) :
    (fresh o recording tokens).tokens = tokens := by
  cases recording <;> rfl

/-- A fresh engine with other tokens ahead is a fresh engine over those. -/
lemma Engine.ahead_fresh (o : Options) (recording : Bool) (tokens us : List Token) :
    (fresh o recording tokens).ahead us = fresh o recording us := by
  cases recording <;> rfl

/-- A fresh engine follows the script of its tokens. -/
lemma Engine.compileClass_fresh (o : Options) (recording : Bool) (tokens : List Token) :
    (fresh o recording tokens).compileClass =
      (fresh o recording tokens).follow (meetOnto tokens nowhere Goal.wholeClass #[]) := by
  cases recording <;> rfl

/-- Tokens that agree up to a place are no shorter than that. -/
lemma le_length_of_agree {ts us : List Token} {m : Nat} (hm : m ≤ ts.length)
    (h : ∀ i ≤ m, us[i]? = ts[i]?) : m ≤ us.length := by
  cases m with
  | zero => exact Nat.zero_le _
  | succ m =>
    have hi := h m (Nat.le_succ m)
    rw [List.getElem?_eq_getElem (Nat.lt_of_succ_le hm)] at hi
    obtain ⟨hu, -⟩ := List.getElem?_eq_some_iff.1 hi
    exact hu

/-- A compilation that fails looks one token further than it has come: where `m` tokens are taken,
all tokens with the same first `m + 1` fail in the same way. -/
theorem failure_looks_one_ahead (o : Options) (recording : Bool) (tokens others : List Token)
    (err : CompileError) (m : Nat)
    (h : (Engine.fresh o recording tokens).compileClass.1 = .error err)
    (hm : m + (Engine.fresh o recording tokens).compileClass.2.tokens.length = tokens.length)
    (hsame : ∀ i ≤ m, others[i]? = tokens[i]?) :
    (Engine.fresh o recording others).compileClass.1 = .error err ∧
      m + (Engine.fresh o recording others).compileClass.2.tokens.length = others.length ∧
      (Engine.fresh o recording others).compileClass.2.code =
        (Engine.fresh o recording tokens).compileClass.2.code ∧
      (Engine.fresh o recording others).compileClass.2.tree =
        (Engine.fresh o recording tokens).compileClass.2.tree := by
  have hf := Engine.compileClass_fresh o recording tokens
  generalize (Engine.fresh o recording tokens).compileClass = out at h hm hf ⊢
  obtain ⟨result, f⟩ := out
  subst h
  have htokens := Engine.tokens_fresh o recording tokens
  have hlast : (Engine.fresh o recording tokens).last = nowhere := by cases recording <;> rfl
  obtain ⟨n, hn, hd, hu⟩ :=
    Engine.failsAlike_meetOnto tokens nowhere Goal.stack_wholeClass htokens hlast hf.symm
  obtain rfl : n = m := by
    simp only [hd, List.length_drop] at hm
    omega
  have hothers := hu others hsame
  rw [Engine.ahead_fresh, ← Engine.compileClass_fresh] at hothers
  have hle := le_length_of_agree hn hsame
  rw [hothers]
  refine ⟨rfl, ?_, rfl, rfl⟩
  show n + (others.drop n).length = others.length
  rw [List.length_drop]
  omega

/-- `class Main { function int one() { return x; } }`, two bytes for each token. -/
def undeclaredResult : List Token :=
  [.keyword .classKw, .identifier "Main", .symbol '{', .keyword .functionKw, .keyword .intKw,
    .identifier "one", .symbol '(', .symbol ')', .symbol '{', .keyword .returnKw, .identifier "x",
    .symbol ';', .symbol '}', .symbol '}'].mapIdx fun i (kind : TokenKind) =>
      ⟨kind, ⟨⟨2 * i, 1, 2 * i + 1⟩, ⟨2 * i + 1, 1, 2 * i + 2⟩⟩, ""⟩

/-- A class that returns an undeclared variable is refused where the variable stands. -/
lemma compileClass_undeclaredResult :
    (Engine.fresh {} true undeclaredResult).compileClass.1 =
      .error ⟨.undeclared "x" "Main", some ⟨⟨20, 1, 21⟩, ⟨21, 1, 22⟩⟩⟩ := by
  with_unfolding_all rfl

/-- Cutting that class off behind the token after the variable changes neither the error nor the
tree. -/
theorem failure_looks_one_ahead_undeclared :
    (Engine.fresh {} true (undeclaredResult.take 12)).compileClass.1 =
        .error ⟨.undeclared "x" "Main", some ⟨⟨20, 1, 21⟩, ⟨21, 1, 22⟩⟩⟩ ∧
      (Engine.fresh {} true (undeclaredResult.take 12)).compileClass.2.tree =
        (Engine.fresh {} true undeclaredResult).compileClass.2.tree := by
  have hm : 11 + (Engine.fresh {} true undeclaredResult).compileClass.2.tokens.length =
      undeclaredResult.length := by
    decide +kernel
  have hsame : ∀ i ≤ 11, (undeclaredResult.take 12)[i]? = undeclaredResult[i]? :=
    fun i hi => List.getElem?_take_of_lt (Nat.lt_succ_of_le hi)
  obtain ⟨hresult, -, -, htree⟩ := failure_looks_one_ahead {} true undeclaredResult
    (undeclaredResult.take 12) _ 11 compileClass_undeclaredResult hm hsame
  exact ⟨hresult, htree⟩

/-! ## Kinds of tokens -/

namespace Engine

variable {e f g : Engine}

/-- Being alike goes both ways. -/
lemma Alike.symm (h : e.Alike f) : f.Alike e :=
  ⟨h.options.symm, h.symbols.symm, h.className.symm, h.kind.symm, h.labels.symm,
    h.openLabels.symm, h.tree.symm, h.code.symm⟩

/-- Being alike carries over. -/
lemma Alike.trans (h : e.Alike f) (h' : f.Alike g) : e.Alike g :=
  ⟨h.options.trans h'.options, h.symbols.trans h'.symbols, h.className.trans h'.className,
    h.kind.trans h'.kind, h.labels.trans h'.labels, h.openLabels.trans h'.openLabels,
    h.tree.trans h'.tree, h.code.trans h'.code⟩

/-- Actions without their places take as many tokens. -/
lemma Alike.length_tokens (h : e.Alike f) (hl : e.tokens.length = f.tokens.length)
    (as : List Action) :
    (e.performAll as).engine.tokens.length =
      (f.performAll (as.map Action.bare)).engine.tokens.length := by
  induction as generalizing e f with
  | nil => exact hl
  | cons a as ih =>
    have ha := h.perform a
    have ht : (e.perform a).engine.tokens.length = (f.perform a.bare).engine.tokens.length := by
      have hk := congrArg List.length (map_kind_taken_bare [a])
      rw [List.length_map, List.length_map] at hk
      rw [e.tokens_perform, f.tokens_perform, List.length_drop, List.length_drop, hl, ← hk]
      rfl
    rw [List.map_cons, Engine.performAll, Engine.performAll]
    revert ha ht
    obtain ⟨e', none | err⟩ := e.perform a <;> obtain ⟨f', none | err'⟩ := f.perform a.bare <;>
      intro ha ht
    · exact ih ha.engine ht
    · cases ha.cause
    · cases ha.cause
    · exact ht

/-- Actions that are the same but for places do the same, and take as many tokens. -/
lemma Alike.performAll_of_bare (h : e.Alike f) (hl : e.tokens.length = f.tokens.length)
    {as bs : List Action} (hb : as.map Action.bare = bs.map Action.bare) :
    (e.performAll as).Alike (f.performAll bs) ∧
      (e.performAll as).engine.tokens.length = (f.performAll bs).engine.tokens.length := by
  have ha := h.performAll as
  have hf := (Alike.refl f).performAll bs
  rw [hb] at ha
  refine ⟨⟨ha.engine.trans hf.engine.symm, ha.cause.trans hf.cause.symm⟩, ?_⟩
  rw [h.length_tokens hl as, hb, ← (Alike.refl f).length_tokens rfl bs]

/-- Actions leave an end of the tokens. -/
lemma tokens_performAll_suffix (e : Engine) (as : List Action) :
    (e.performAll as).engine.tokens <:+ e.tokens := by
  obtain ⟨done, -, -, ht, -⟩ := e.exists_done as
  rw [ht]
  exact List.drop_suffix _ _

/-- The class of an error about the current token depends on the kind of that token. -/
lemma kind_unexpected (h : e.tokens.map Token.kind = f.tokens.map Token.kind)
    (expected : Expected) : (e.unexpected expected).kind = (f.unexpected expected).kind := by
  rw [unexpected, unexpected]
  cases he : e.tokens with
  | nil =>
    rw [he, List.map_nil, eq_comm, List.map_eq_nil_iff] at h
    rw [h]
    rfl
  | cons t ts =>
    rw [he, List.map_cons, eq_comm, List.map_eq_cons_iff] at h
    obtain ⟨u, us, hf, hk, -⟩ := h
    simp only [hf, hk]
    cases t.kind <;> rfl

/-- Tokens left of two lists whose kinds agree have kinds that agree, if as many are left. -/
lemma map_kind_of_suffix {ts us ts' us' : List Token} (hk : ts.map Token.kind = us.map Token.kind)
    (ht : ts' <:+ ts) (hu : us' <:+ us) (hl : ts'.length = us'.length) :
    ts'.map Token.kind = us'.map Token.kind := by
  have hts := ht.map Token.kind
  have hus := hu.map Token.kind
  rw [hk] at hts
  have hle : (ts'.map Token.kind).length = (us'.map Token.kind).length := by
    rw [List.length_map, List.length_map, hl]
  exact (List.suffix_of_suffix_length_le hts hus (Nat.le_of_eq hle)).eq_of_length hle

/-- Scripts that are the same but for places have outcomes that are the same but for places. -/
lemma Alike.follow (h : e.Alike f) (hk : e.tokens.map Token.kind = f.tokens.map Token.kind)
    {s s' : Script} (hs : s.bare = s'.bare) :
    ((∃ name, (e.follow s).1 = .ok name ∧ (f.follow s').1 = .ok name) ∨
      ∃ err err', (e.follow s).1 = .error err ∧ (f.follow s').1 = .error err' ∧
        err.kind = err'.kind) ∧
      (e.follow s).2.Alike (f.follow s').2 ∧
      (e.follow s).2.tokens <:+ e.tokens ∧ (f.follow s').2.tokens <:+ f.tokens ∧
      (e.follow s).2.tokens.length = (f.follow s').2.tokens.length := by
  have hlength : e.tokens.length = f.tokens.length := by simpa using congrArg List.length hk
  obtain ⟨hactions, hfailure⟩ := Script.mk.inj hs
  obtain ⟨ha, hl⟩ := h.performAll_of_bare hlength hactions
  have he := e.tokens_performAll_suffix s.actions
  have hf := f.tokens_performAll_suffix s'.actions
  simp only [Engine.follow, hfailure]
  revert ha hl he hf
  obtain ⟨e', none | err⟩ := e.performAll s.actions <;>
    obtain ⟨f', none | err'⟩ := f.performAll s'.actions <;> intro ha hl he hf
  · cases s'.failure with
    | none =>
      refine ⟨.inl ⟨_, rfl, ?_⟩, ha.engine, he, hf, hl⟩
      rw [ha.engine.className]
    | some expected =>
      refine ⟨.inr ⟨_, _, rfl, rfl, ?_⟩, ha.engine, he, hf, hl⟩
      exact kind_unexpected (map_kind_of_suffix hk he hf hl) expected
  · cases ha.cause
  · cases ha.cause
  · have hc : err.cause = err'.cause := by simpa using ha.cause
    refine ⟨.inr ⟨_, _, rfl, rfl, ?_⟩, ha.engine, he, hf, hl⟩
    rw [CompileError.kind, CompileError.kind, hc]

end Engine

/-- A compilation depends on the kinds of its tokens only. -/
theorem compilation_of_kinds (o : Options) (recording : Bool) (tokens others : List Token)
    (h : tokens.map Token.kind = others.map Token.kind) :
    ((∃ name, (Engine.fresh o recording tokens).compileClass.1 = .ok name ∧
        (Engine.fresh o recording others).compileClass.1 = .ok name) ∨
      ∃ err err', (Engine.fresh o recording tokens).compileClass.1 = .error err ∧
        (Engine.fresh o recording others).compileClass.1 = .error err' ∧ err.kind = err'.kind) ∧
    (∃ m, m + (Engine.fresh o recording tokens).compileClass.2.tokens.length = tokens.length ∧
      m + (Engine.fresh o recording others).compileClass.2.tokens.length = others.length) ∧
    (Engine.fresh o recording tokens).compileClass.2.code =
      (Engine.fresh o recording others).compileClass.2.code ∧
    (Engine.fresh o recording tokens).compileClass.2.tree =
      (Engine.fresh o recording others).compileClass.2.tree := by
  have halike : (Engine.fresh o recording tokens).Alike (Engine.fresh o recording others) := by
    cases recording <;> exact ⟨rfl, rfl, rfl, rfl, rfl, rfl, rfl, rfl⟩
  have hbare : (ofTokens tokens nowhere).bare = (ofTokens others nowhere).bare := by
    rw [bare_ofTokens, bare_ofTokens, h]
  have hlength : tokens.length = others.length := by simpa using congrArg List.length h
  have hkinds : (Engine.fresh o recording tokens).tokens.map Token.kind =
      (Engine.fresh o recording others).tokens.map Token.kind := by
    rw [Engine.tokens_fresh, Engine.tokens_fresh, h]
  obtain ⟨hresult, hengine, ht, -, hl⟩ := halike.follow hkinds hbare
  rw [Engine.tokens_fresh] at ht
  rw [Engine.compileClass_fresh, Engine.compileClass_fresh]
  refine ⟨hresult, ⟨_, Nat.sub_add_cancel ht.length_le, ?_⟩, hengine.code, hengine.tree⟩
  rw [← hlength]
  exact (congrArg _ hl.symm).trans (Nat.sub_add_cancel ht.length_le)

/-- That class is refused in the same way where its tokens have no places and lexemes. -/
theorem compilation_of_kinds_undeclared :
    ∃ err, (Engine.fresh {} true (undeclaredResult.map Token.bare)).compileClass.1 = .error err ∧
      err.kind = .unresolvedSymbol := by
  have hk : undeclaredResult.map Token.kind = (undeclaredResult.map Token.bare).map Token.kind := by
    decide +kernel
  obtain ⟨⟨name, hn, -⟩ | ⟨err, err', he, he', hkind⟩, -⟩ := compilation_of_kinds {} true _ _ hk
  · cases compileClass_undeclaredResult.symm.trans hn
  · cases compileClass_undeclaredResult.symm.trans he
    exact ⟨err', he', hkind.symm⟩

end Jack
