import Jack.Proofs.Compile.Classes
import Jack.Proofs.Compile.Kinds
import Jack.Proofs.Grammar.Unique
import Jack.Proofs.Parse.Sound

/-!
# What is compiled, and to what

A fresh engine compiles the tokens in front of the first end of the input exactly where they are the
yield of a derivation that respects the static rules, and then it has produced the code of that
derivation.
-/

namespace Jack

open Grammar Script
open Vm (Instruction)

/-- Does an engine over the tokens succeed? -/
def Compiles (o : Options) (tokens : List Token) : Prop :=
  ∃ name, (Engine.start o tokens).compileClass.1 = .ok name

/-- The code that an engine over the tokens writes. -/
def produced (o : Options) (tokens : List Token) : List Instruction :=
  (Engine.start o tokens).compileClass.2.code

/-- A derivation reads a list of tokens up to the first end of the input. -/
def Grammar.ClassDec.Derives (c : ClassDec) (tokens : List Token) : Prop :=
  c.yield = beforeEof (tokens.map Token.kind)

/-- An engine starts at the starting point. -/
lemma Engine.start_at (o : Options) (tokens : List Token) :
    (Engine.start o tokens).At (startPoint o) :=
  ⟨rfl, rfl, Scope.holds_empty, Scope.holds_empty, rfl, rfl⟩

/-- What a fresh engine makes of the actions without their places. -/
def bareRun (o : Options) (tokens : List Token) : Step :=
  (Engine.start o tokens).performAll (ofKinds (tokens.map Token.kind) Goal.wholeClass).actions

/-- A compilation works out where its actions do and nothing is unexpected. -/
lemma Engine.compileClass_eq_ok_iff (e : Engine) :
    (∃ name, e.compileClass.1 = .ok name) ↔
      (performAll { e with openLabels := [] } (Script.ofTokens e.tokens e.last).actions).error =
          none ∧
        (Script.ofTokens e.tokens e.last).failure = none := by
  simp only [compileClass]
  split
  · next hp => simp [hp]
  · next hp =>
    rw [hp]
    split
    · next expected hf => simp [hf]
    · next hf => simp [hf]

/-- Compiling a class leads to where the actions of the script lead. -/
lemma Engine.compileClass_snd (e : Engine) :
    e.compileClass.2 =
      (performAll { e with openLabels := [] }
        (Script.ofTokens e.tokens e.last).actions).engine := by
  simp only [compileClass]
  split
  · next hp => rw [hp]
  · next hp => split <;> rw [hp]

/-- The outcome of a compilation is that of its actions without their places. -/
lemma compiles_iff_bareRun (o : Options) (tokens : List Token) :
    (Compiles o tokens ↔ (bareRun o tokens).error = none ∧
      (ofKinds (tokens.map Token.kind) Goal.wholeClass).failure = none) ∧
    produced o tokens = (bareRun o tokens).engine.code := by
  let e := Engine.start o tokens
  let s := Script.ofTokens tokens e.last
  have hb : s.bare = ofKinds (tokens.map Token.kind) Goal.wholeClass := bare_ofTokens tokens _
  -- The same engine carries out the actions with and without their places.
  have ha := (Engine.Alike.refl e).performAll s.actions
  have hr : bareRun o tokens = e.performAll (s.actions.map Action.bare) := by
    rw [bareRun, ← hb]
    rfl
  have hf : (ofKinds (tokens.map Token.kind) Goal.wholeClass).failure = s.failure := by
    rw [← hb]
    rfl
  constructor
  · rw [hr, hf, ← Step.Alike.error_eq_none_iff ha]
    exact e.compileClass_eq_ok_iff
  · rw [hr, produced, e.compileClass_snd]
    exact ha.engine.code

/-- The tokens of a derivation compile exactly where the static rules hold. -/
lemma Grammar.ClassDec.Derives.compiles_iff {o : Options} {c : ClassDec} {tokens : List Token}
    (h : c.Derives tokens) :
    (Compiles o tokens ↔ c.WellFormed o) ∧ (c.WellFormed o → produced o tokens = c.code o) := by
  obtain ⟨rest, hk, he⟩ := exists_beforeEof_append (tokens.map Token.kind)
  -- Behind the derivation the end of the input follows, where following the grammar stops.
  rw [← h] at hk
  obtain ⟨hiff, hcode⟩ := compiles_iff_bareRun o tokens
  have hrun := (Engine.start_at o tokens).performAll c.script
  rw [bareRun, hk, c.ofKinds_yield he] at hiff hcode
  rw [hiff, hcode, hrun.succeeds, c.allAllowed_script]
  refine ⟨by simp, fun hw => ?_⟩
  rw [hrun.produced ((c.allAllowed_script o).2 hw), c.outputs_script]
  rfl

/-- What compiles has a derivation. -/
lemma Compiles.exists_derives {o : Options} {tokens : List Token} (h : Compiles o tokens) :
    ∃ c : ClassDec, c.Derives tokens := by
  obtain ⟨-, hf⟩ := (compiles_iff_bareRun o tokens).1.1 h
  obtain ⟨c, rest, hk, he⟩ := exists_yield_of_ofKinds hf
  refine ⟨c, ?_⟩
  rw [ClassDec.Derives, hk, c.beforeEof_yield he]

/-- A fresh engine compiles exactly the derivations that respect the static rules. -/
theorem compiles_iff_exists_derivation (o : Options) (tokens : List Token) :
    (∃ name, (Engine.start o tokens).compileClass.1 = .ok name) ↔
      ∃ c : ClassDec, c.yield = (tokens.map Token.kind).takeWhile (· ≠ .eof) ∧
        c.WellFormed o := by
  constructor
  · intro h
    obtain ⟨c, hc⟩ := Compiles.exists_derives h
    exact ⟨c, hc, hc.compiles_iff.1.1 h⟩
  · rintro ⟨c, hc, hw⟩
    exact (ClassDec.Derives.compiles_iff hc).1.2 hw

/-- Where a fresh engine succeeds, the tokens have one derivation, and its code is what the engine
has produced. -/
theorem produced_eq_code_of_derivation (o : Options) (tokens : List Token)
    (h : ∃ name, (Engine.start o tokens).compileClass.1 = .ok name) :
    ∃ c : ClassDec, c.yield = (tokens.map Token.kind).takeWhile (· ≠ .eof) ∧
      (∀ d : ClassDec, d.yield = (tokens.map Token.kind).takeWhile (· ≠ .eof) → d = c) ∧
      (Engine.start o tokens).compileClass.2.code = c.code o := by
  obtain ⟨c, hc⟩ := Compiles.exists_derives h
  obtain ⟨hiff, hcode⟩ := hc.compiles_iff (o := o)
  refine ⟨c, hc, ?_, hcode (hiff.1 h)⟩
  intro d hd
  exact ClassDec.yield_injective (hd.trans hc.symm)

/-! ## An example -/

/-- `class Main { function int abs(int x) { if (x < 0) { let x = -x; } return x; } }` -/
def absolute : ClassDec where
  name := "Main"
  vars := []
  subroutines :=
    [{ kind := .function
       result := some .int
       name := "abs"
       params := [⟨.int, "x"⟩]
       locals := []
       body :=
        .cons (.ifThen (.mk (.var "x") (.cons .less (.integer 0) .nil))
          (.cons (.assign "x" (.mk (.unary .negate (.var "x")) .nil)) .nil))
        (.cons (.giveBack (some (.mk (.var "x") .nil))) .nil) }]

/-- Tokens of a class that have no places and lexemes. -/
def Grammar.ClassDec.tokens (c : ClassDec) : List Token := c.yield.map TokenKind.bare

/-- A class derives its tokens. -/
lemma Grammar.ClassDec.derives_tokens (c : ClassDec) : c.Derives c.tokens := by
  have hk : c.tokens.map Token.kind = c.yield := by
    simp [ClassDec.tokens, Function.comp_def, TokenKind.bare]
  have hy : beforeEof (c.yield ++ []) = c.yield := c.beforeEof_yield rfl
  rw [List.append_nil] at hy
  rw [ClassDec.Derives, hk, hy]

/-- The code of the class that computes absolute values. -/
def absoluteCode : List Instruction :=
  [.function "Main.abs" 0, .push .argument 0, .push .constant 0, .arithmetic .lt,
    .arithmetic .not, .ifGoto "IF_FALSE0", .push .argument 0, .arithmetic .neg,
    .pop .argument 0, .goto "IF_END0", .label "IF_FALSE0", .label "IF_END0", .push .argument 0,
    .ret]

/-- That class compiles. -/
lemma compiles_absolute : Compiles {} absolute.tokens :=
  absolute.derives_tokens.compiles_iff.1.2 (by decide)

/-- Its code is the one above. -/
theorem produced_absolute :
    (Engine.start {} absolute.tokens).compileClass.2.code = absoluteCode := by
  obtain ⟨c, -, hu, hcode⟩ := produced_eq_code_of_derivation {} absolute.tokens compiles_absolute
  obtain rfl := hu absolute absolute.derives_tokens
  rw [hcode]
  decide

end Jack
