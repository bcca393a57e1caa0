import Jack.Proofs.Compile.Dependence
import Mathlib.Data.List.Forall2

/-!
# What the options decide

Two engines with the same limit on integers but other library routines keep in step: what they
have produced differs at most where both call the same routine, each by the name that its options
give it (`Engine.Parallel`). A higher limit changes nothing either while no integer exceeds the
lower one.
-/

namespace Jack

open Grammar
open Vm (Instruction)

/-- The routines of the runtime, whose names are options. -/
inductive Routine where
  | alloc
  | multiply
  | divide
  | stringNew
  | stringAppend

/-- The name that the options give to a library routine. -/
def Runtime.name (r : Runtime) : Routine → String
  | .alloc => r.alloc
  | .multiply => r.multiply
  | .divide => r.divide
  | .stringNew => r.stringNew
  | .stringAppend => r.stringAppend

/-- Two instructions are the same, or both call the same library routine. -/
inductive Vm.Instruction.SameBut (r r' : Runtime) : Instruction → Instruction → Prop where
  | same {i} :
    SameBut r r' i i
  | routine (which : Routine) {args} :
    SameBut r r' (.call (r.name which) args) (.call (r'.name which) args)

open Vm.Instruction (SameBut)

/-- The second engine is the first one with other options and the code that they lead to. -/
inductive Engine.Parallel (o o' : Options) : Engine → Engine → Prop where
  | mk {e events} :
    e.options = o →
    List.Forall₂ (SameBut o.runtime o'.runtime) e.code (Event.code events.toList) →
    Parallel o o' e { e with options := o', events := events }

/-- Two steps lead to parallel engines, and to the same error. -/
structure Step.Parallel (o o' : Options) (s t : Step) : Prop where
  engine : s.engine.Parallel o o' t.engine
  error : t.error = s.error

/-- The limit is the same, or it is raised where there is nothing to complain of. -/
def Options.Covers (o o' : Options) (error : Option CompileError) : Prop :=
  o'.maxInteger = o.maxInteger ∨ o.maxInteger ≤ o'.maxInteger ∧ error = none

namespace Vm.Instruction.SameBut

/-- With the same routines the code is the same. -/
lemma eq_of_forall₂_self {r : Runtime} {is js : List Instruction}
    (h : List.Forall₂ (SameBut r r) is js) : js = is := by
  induction h with
  | nil => rfl
  | cons hij _ ih =>
    rw [ih]
    cases hij <;> rfl

/-- Instructions are the same but for the runtime as themselves. -/
lemma forall₂_refl (r r' : Runtime) (is : List Instruction) :
    List.Forall₂ (SameBut r r') is is :=
  List.forall₂_same.2 fun _ _ => .same

end Vm.Instruction.SameBut

namespace Engine.Parallel

variable {o o' : Options} {e f : Engine}

/-- Steps that succeed and lead to parallel engines are parallel. -/
lemma ok (h : e.Parallel o o' f) : Step.Parallel o o' ⟨e, none⟩ ⟨f, none⟩ := ⟨h, rfl⟩

/-- Parallel engines fail alike. -/
lemma fail (h : e.Parallel o o' f) (cause : Cause) (span : Span) :
    (e.fail cause span).Parallel o o' (f.fail cause span) := ⟨h, rfl⟩

/-- Parallel engines have the options they are named for. -/
lemma options (h : e.Parallel o o' f) : e.options = o ∧ f.options = o' := by
  cases h with
  | mk he _ => exact ⟨he, rfl⟩

/-- Parallel engines have the same symbols. -/
lemma symbols (h : e.Parallel o o' f) : f.symbols = e.symbols := by
  cases h
  rfl

/-- Parallel engines are in the same class. -/
lemma className (h : e.Parallel o o' f) : f.className = e.className := by
  cases h
  rfl

/-- Parallel engines have recorded the same tree. -/
lemma tree (h : e.Parallel o o' f) : f.tree = e.tree := by
  cases h
  rfl

/-- Parallel engines have written the same code but for the runtime. -/
lemma code (h : e.Parallel o o' f) :
    List.Forall₂ (SameBut o.runtime o'.runtime) e.code f.code := by
  cases h with
  | mk _ hc => exact hc

/-- Parallel engines report the same mismatch. -/
lemma unexpected (h : e.Parallel o o' f) (expected : Expected) :
    f.unexpected expected = e.unexpected expected := by
  cases h
  rfl

/-- Parallel engines put the same class in front of names. -/
lemma qualified (h : e.Parallel o o' f) (name : String) : f.qualified name = e.qualified name := by
  cases h
  rfl

/-- In parallel engines a call goes to the same subroutine. -/
lemma target (h : e.Parallel o o' f) (callee : Callee) : f.target callee = e.target callee := by
  cases h
  cases callee <;> rfl

/-- Parallel engines have the same innermost label. -/
lemma innermostLabel (h : e.Parallel o o' f) : f.innermostLabel = e.innermostLabel := by
  cases h
  rfl

/-- Events whose code is the same but for the runtime keep engines parallel. -/
lemma note (h : e.Parallel o o' f) {v w : Event}
    (hvw : List.Forall₂ (SameBut o.runtime o'.runtime) (Event.code [v]) (Event.code [w])) :
    (e.note v).Parallel o o' (f.note w) := by
  cases h with
  | @mk events he hc =>
    have hcode : List.Forall₂ (SameBut o.runtime o'.runtime) (e.note v).code
        (Event.code (events.push w).toList) := by
      rw [code_note, Array.toList_push, Event.code_append]
      exact List.rel_append hc hvw
    exact .mk (e := e.note v) he hcode

/-- Instructions that are the same but for the runtime keep engines parallel. -/
lemma emit (h : e.Parallel o o' f) {i j : Instruction}
    (hij : SameBut o.runtime o'.runtime i j) : (e.emit i).Parallel o o' (f.emit j) :=
  h.note (.cons hij .nil)

/-- Lists of instructions that are the same but for the runtime keep engines parallel. -/
lemma emitAll (h : e.Parallel o o' f) {is js : List Instruction}
    (his : List.Forall₂ (SameBut o.runtime o'.runtime) is js) :
    (e.emitAll is).Parallel o o' (f.emitAll js) := by
  induction his generalizing e f with
  | nil => exact h
  | cons hij _ ih => exact ih (h.emit hij)

/-- The same code for both. -/
lemma emitSame (h : e.Parallel o o' f) (is : List Instruction) :
    (e.emitAll is).Parallel o o' (f.emitAll is) := h.emitAll (SameBut.forall₂_refl _ _ is)

/-- The same change of the trees keeps engines parallel. -/
lemma withTree (h : e.Parallel o o' f) (change : Tree → Tree) :
    Engine.Parallel o o' { e with tree := e.tree.map change }
      { f with tree := f.tree.map change } := by
  cases h with
  | mk he hc => exact .mk (e := { e with tree := e.tree.map change }) he hc

/-- Consuming a token keeps engines parallel. -/
lemma consume (h : e.Parallel o o' f) (token : Token) :
    (e.consume token).Parallel o o' (f.consume token) := by
  cases h with
  | mk he hc => exact .mk (e := e.consume token) he hc

/-- Entering a class keeps engines parallel. -/
lemma enterClass (h : e.Parallel o o' f) (name : String) :
    Engine.Parallel o o' { e.note (.enteredClass name) with className := name }
      { f.note (.enteredClass name) with className := name } := by
  have hn : (e.note (.enteredClass name)).Parallel o o' (f.note (.enteredClass name)) :=
    h.note .nil
  generalize e.note (.enteredClass name) = e', f.note (.enteredClass name) = f' at hn
  cases hn with
  | mk he hc => exact .mk (e := { e' with className := name }) he hc

/-- Opening a branch or loop keeps engines parallel. -/
lemma openLabel (h : e.Parallel o o' f) : e.openLabel.Parallel o o' f.openLabel := by
  cases h with
  | mk he hc => exact .mk (e := e.openLabel) he hc

/-- Closing a branch or loop keeps engines parallel. -/
lemma closeLabel (h : e.Parallel o o' f) : e.closeLabel.Parallel o o' f.closeLabel := by
  cases h with
  | mk he hc => exact .mk (e := e.closeLabel) he hc

/-- Declaring a name keeps engines parallel. -/
lemma declare (h : e.Parallel o o' f) (name type : String) (kind : SymbolKind) (span : Span) :
    (e.declare name type kind span).Parallel o o' (f.declare name type kind span) := by
  cases h with
  | mk he hc =>
    simp only [Engine.declare]
    obtain ⟨answer, symbols⟩ := e.symbols.declare name type kind
    have hs : Engine.Parallel o o' { e with symbols := symbols } _ := .mk he hc
    cases answer with
    | ok index => exact ok hs
    | error cause => exact ⟨hs, rfl⟩

/-- Entering a subroutine keeps engines parallel. -/
lemma enterSubroutine (h : e.Parallel o o' f) (kind : SubroutineKind) :
    (e.enterSubroutine kind).Parallel o o' (f.enterSubroutine kind) := by
  cases h with
  | mk he hc =>
    let entered : Engine := { e with kind := kind, symbols := e.symbols.startSubroutine }
    simp only [Engine.enterSubroutine]
    split
    · obtain ⟨answer, symbols⟩ := e.symbols.startSubroutine.declare "this" e.className .argument
      have hs : Engine.Parallel o o' { entered with symbols := symbols } _ := .mk he hc
      cases answer with
      | ok index => exact ok hs
      | error cause => exact ⟨hs, rfl⟩
    · exact ok (.mk (e := entered) he hc)

/-- Subroutines start with the same code but for the routine that allocates. -/
lemma prologue (h : e.Parallel o o' f) (kind : SubroutineKind) :
    List.Forall₂ (SameBut o.runtime o'.runtime) (e.prologue kind) (f.prologue kind) := by
  cases kind with
  | constructor =>
    simp only [Engine.prologue, h.options, h.symbols]
    exact .cons .same (.cons (.routine .alloc) (.cons .same .nil))
  | method => exact SameBut.forall₂_refl _ _ _
  | function => exact .nil

/-- Entering a body keeps engines parallel. -/
lemma enterBody (h : e.Parallel o o' f) (kind : SubroutineKind) (name : String) :
    (e.enterBody kind name).Parallel o o' (f.enterBody kind name) := by
  have hp := h.prologue kind
  rw [Engine.enterBody, Engine.enterBody, h.qualified, h.symbols]
  exact emitAll (emit (h.note .nil) .same) hp

/-- Using a variable keeps engines parallel. -/
lemma withVariable (h : e.Parallel o o' f) (name : String) (span : Span)
    (use : Symbol → List Instruction) :
    (e.withVariable name span use).Parallel o o' (f.withVariable name span use) := by
  rw [Engine.withVariable, Engine.withVariable, h.symbols, h.className]
  split
  · exact (h.emitSame _).ok
  · exact h.fail _ span

/-- The only place where the limit counts. -/
lemma integer (h : e.Parallel o o' f) (value : Nat) (span : Span)
    (hl : o.Covers o' (e.integer value span).error) :
    (e.integer value span).Parallel o o' (f.integer value span) := by
  rw [Engine.integer, h.options.1] at hl ⊢
  rw [Engine.integer, h.options.2]
  by_cases hv : value ≤ o.maxInteger.toNat
  · have hv' : value ≤ o'.maxInteger.toNat := by
      obtain hl | ⟨hl, -⟩ := hl
      · rwa [hl]
      · exact Nat.le_trans hv (UInt16.le_iff_toNat_le.1 hl)
    rw [if_pos hv, if_pos hv']
    exact (h.emit .same).ok
  · rw [if_neg hv] at hl ⊢
    obtain hl | ⟨-, hl⟩ := hl
    · rw [hl, if_neg hv]
      exact h.fail _ span
    · cases hl

/-- Appending characters keeps engines parallel. -/
lemma appendChars (h : e.Parallel o o' f) (span : Span) (cs : List Char) :
    (Engine.appendChars span e cs).Parallel o o' (Engine.appendChars span f cs) := by
  induction cs generalizing e f with
  | nil => exact h.ok
  | cons c cs ih =>
    rw [Engine.appendChars, Engine.appendChars, h.options.1, h.options.2]
    split
    · exact ih (h.emitAll (.cons .same (.cons (.routine .stringAppend) .nil)))
    · exact h.fail _ span

/-- Building a string keeps engines parallel. -/
lemma string (h : e.Parallel o o' f) (body : String) (span : Span) :
    (e.string body span).Parallel o o' (f.string body span) := by
  simp only [Engine.string, h.options]
  split
  · apply appendChars
    exact h.emitAll (.cons .same (.cons (.routine .stringNew) .nil))
  · exact h.fail _ span

/-- Notes that are made in functions only. -/
lemma noteInFunction (h : e.Parallel o o' f) {v : Event} (hv : Event.code [v] = []) :
    (if e.kind = .function then e.note v else e).Parallel o o'
      (if f.kind = .function then f.note v else f) := by
  have hk : f.kind = e.kind := by cases h; rfl
  have hcode : List.Forall₂ (SameBut o.runtime o'.runtime) (Event.code [v]) (Event.code [v]) := by
    rw [hv]
    exact .nil
  rw [hk]
  split
  · exact h.note hcode
  · exact h

/-- Pushing the object keeps engines parallel. -/
lemma thisObject (h : e.Parallel o o' f) (span : Span) :
    (e.thisObject span).Parallel o o' (f.thisObject span) := by
  simp only [Engine.thisObject, h.className]
  exact (h.noteInFunction rfl).emit .same

/-- An operator has the same instruction but for the routine that it may call. -/
lemma operator (h : e.Parallel o o' f) (op : BinaryOp) :
    SameBut o.runtime o'.runtime (e.operator op) (f.operator op) := by
  cases op with
  | native op => exact .same
  | multiply =>
    rw [Engine.operator, Engine.operator, h.options.1, h.options.2]
    exact .routine .multiply
  | divide =>
    rw [Engine.operator, Engine.operator, h.options.1, h.options.2]
    exact .routine .divide

/-- Pushing the receiver of a call keeps engines parallel. -/
lemma receiver (h : e.Parallel o o' f) (callee : Callee) (span : Span) :
    (e.receiver callee span).Parallel o o' (f.receiver callee span) := by
  simp only [Engine.receiver, h.target]
  split
  · exact (h.noteInFunction rfl).emit .same
  · exact h.emit .same
  · exact h

/-- Making a call keeps engines parallel. -/
lemma call (h : e.Parallel o o' f) (callee : Callee) (count : Nat) (span : Span) :
    (e.call callee count span).Parallel o o' (f.call callee count span) := by
  simp only [Engine.call, h.target]
  split
  · exact (emit (h.note .nil) .same).ok
  · exact h.fail _ span

/-- Parallel engines carry out an action alike. -/
lemma perform (h : e.Parallel o o' f) (a : Action) (hl : o.Covers o' (e.perform a).error) :
    (e.perform a).Parallel o o' (f.perform a) := by
  cases a with
  | consume token => exact (h.consume token).ok
  | openNode node => exact (h.withTree _).ok
  | closeNode node => exact (h.withTree _).ok
  | enterClass name => exact (h.enterClass name).ok
  | declare name type kind span => exact h.declare name type kind span
  | enterSubroutine kind => exact h.enterSubroutine kind
  | enterBody kind name => exact (h.enterBody kind name).ok
  | missingReturn kind name span =>
    simp only [Engine.perform, h.qualified]
    exact h.fail _ span
  | implicitReturn name =>
    simp only [Engine.perform, h.qualified]
    exact (emitSame (h.note .nil) _).ok
  | emit i => exact (h.emit .same).ok
  -- Only here does the limit decide, so only here is it needed.
  | integer value span => exact h.integer value span hl
  | string body span => exact h.string body span
  | thisObject span => exact (h.thisObject span).ok
  | require name span => exact h.withVariable name span _
  | load name span => exact h.withVariable name span _
  | store name span => exact h.withVariable name span _
  | operate op => exact (h.emit (h.operator op)).ok
  | openLabels => exact h.openLabel.ok
  | branchTest | branchElse | loopTest =>
    simp only [Engine.perform, h.innermostLabel]
    exact (h.emitSame _).ok
  | branchEnd =>
    simp only [Engine.perform, h.innermostLabel]
    exact (h.emit .same).closeLabel.ok
  | loopTop =>
    simp only [Engine.perform, h.innermostLabel]
    exact (h.emit .same).ok
  | loopEnd =>
    simp only [Engine.perform, h.innermostLabel]
    exact (h.emitSame _).closeLabel.ok
  | receiver callee span => exact (h.receiver callee span).ok
  | countArgument count span =>
    simp only [Engine.perform]
    split
    · exact h.ok
    · exact h.fail _ span
  | call callee count span => exact h.call callee count span

/-- Parallel engines stay so up to the first error, which is the same for both. -/
lemma performAll (h : e.Parallel o o' f) (as : List Action)
    (hl : o.Covers o' (e.performAll as).error) :
    (e.performAll as).Parallel o o' (f.performAll as) := by
  induction as generalizing e f with
  | nil => exact h.ok
  | cons a as ih =>
    have ha : o.Covers o' (e.perform a).error → (e.perform a).Parallel o o' (f.perform a) :=
      h.perform a
    rw [Engine.performAll] at hl ⊢
    rw [Engine.performAll]
    revert ha hl
    obtain ⟨e', none | err⟩ := e.perform a <;> obtain ⟨f', error⟩ := f.perform a <;>
      intro hl ha
    · -- Nothing went wrong with `a`, so any limit that is not lower covers it.
      obtain ⟨hp, rfl⟩ := ha (hl.imp_right fun hl => ⟨hl.1, rfl⟩)
      exact ih hp hl
    · obtain ⟨hp, rfl⟩ := ha hl
      exact ⟨hp, rfl⟩

/-- Parallel engines compile alike. -/
lemma compileClass (h : e.Parallel o o' f)
    (hl : o'.maxInteger = o.maxInteger ∨
      o.maxInteger ≤ o'.maxInteger ∧ ∃ name, e.compileClass.1 = .ok name) :
    f.compileClass.1 = e.compileClass.1 ∧ e.compileClass.2.Parallel o o' f.compileClass.2 := by
  have hs : Script.ofTokens f.tokens f.last = Script.ofTokens e.tokens e.last := by cases h; rfl
  -- The script comes from the tokens alone, and both engines carry out the same actions.
  have hstart : Engine.Parallel o o' { e with openLabels := [] } { f with openLabels := [] } := by
    cases h with
    | mk he hc => exact .mk (e := { e with openLabels := [] }) he hc
  have hrun := hstart.performAll (Script.ofTokens e.tokens e.last).actions
    (hl.imp_right fun hl => ⟨hl.1, (e.compileClass_eq_ok_iff.1 hl.2).1⟩)
  rw [Engine.compileClass, Engine.compileClass, hs]
  revert hrun
  obtain ⟨e', error⟩ := Engine.performAll { e with openLabels := [] } _
  obtain ⟨f', error'⟩ := Engine.performAll { f with openLabels := [] } _
  rintro ⟨hp, rfl⟩
  cases error' with
  | some err => exact ⟨rfl, hp⟩
  | none =>
    cases (Script.ofTokens e.tokens e.last).failure with
    | some expected => exact ⟨congrArg Except.error (hp.unexpected expected), hp⟩
    | none => exact ⟨congrArg Except.ok hp.className, hp⟩

end Engine.Parallel

/-- Fresh engines over the same tokens are parallel. -/
lemma Engine.parallel_fresh (o o' : Options) (recording : Bool) (tokens : List Token) :
    (fresh o recording tokens).Parallel o o' (fresh o' recording tokens) := by
  cases recording <;> exact .mk rfl .nil

/-- Options decide only what they name. With the same limit on integers the result is the same, and
the code but for the names of the library routines; a limit that is not lower gives the same code
for whatever compiles. -/
theorem compileClass_options (recording : Bool) (tokens : List Token) :
    (∀ o o' : Options, o.maxInteger = o'.maxInteger →
      (Engine.fresh o' recording tokens).compileClass.1 =
          (Engine.fresh o recording tokens).compileClass.1 ∧
        List.Forall₂ (SameBut o.runtime o'.runtime)
          (Engine.fresh o recording tokens).compileClass.2.code
          (Engine.fresh o' recording tokens).compileClass.2.code ∧
        (Engine.fresh o' recording tokens).compileClass.2.tree =
          (Engine.fresh o recording tokens).compileClass.2.tree) ∧
    ∀ (runtime : Runtime) (m m' : UInt16) (name : String), m ≤ m' →
      (Engine.fresh ⟨m, runtime⟩ recording tokens).compileClass.1 = .ok name →
      (Engine.fresh ⟨m', runtime⟩ recording tokens).compileClass.1 = .ok name ∧
        (Engine.fresh ⟨m', runtime⟩ recording tokens).compileClass.2.code =
          (Engine.fresh ⟨m, runtime⟩ recording tokens).compileClass.2.code ∧
        (Engine.fresh ⟨m', runtime⟩ recording tokens).compileClass.2.tree =
          (Engine.fresh ⟨m, runtime⟩ recording tokens).compileClass.2.tree := by
  constructor
  · intro o o' hm
    obtain ⟨hresult, hp⟩ :=
      (Engine.parallel_fresh o o' recording tokens).compileClass (.inl hm.symm)
    exact ⟨hresult, hp.code, hp.tree⟩
  · intro runtime m m' name hm hname
    obtain ⟨hresult, hp⟩ :=
      (Engine.parallel_fresh ⟨m, runtime⟩ ⟨m', runtime⟩ recording tokens).compileClass
        (.inr ⟨hm, name, hname⟩)
    exact ⟨hresult.trans hname, SameBut.eq_of_forall₂_self hp.code, hp.tree⟩

/-- `class Board { field int cells; constructor Board new(int side)
{ let cells = side * side / 2; do Output.printString("ok"); return this; } }` -/
def board : ClassDec where
  name := "Board"
  vars := [⟨.field, .int, "cells", []⟩]
  subroutines :=
    [{ kind := .constructor
       result := some (.named "Board")
       name := "new"
       params := [⟨.int, "side"⟩]
       locals := []
       body :=
        .cons (.assign "cells"
          (.mk (.var "side") (.cons .times (.var "side") (.cons .divide (.integer 2) .nil))))
        (.cons (.invoke (.member "Output" "printString") (.cons (.mk (.string "ok") .nil) .nil))
        (.cons (.giveBack (some (.mk (.word .thisWord) .nil))) .nil)) }]

/-- Names of its own for all routines. -/
def otherRoutines : Runtime where
  alloc := "Heap.take"
  multiply := "Word.times"
  divide := "Word.over"
  stringNew := "Text.empty"
  stringAppend := "Text.add"

/-- The code of the class `Board` with the routines of the standard runtime. -/
def boardCode : List Instruction :=
  [.function "Board.new" 0, .push .constant 1, .call "Memory.alloc" 1, .pop .pointer 0,
    .push .argument 0, .push .argument 0, .call "Math.multiply" 2, .push .constant 2,
    .call "Math.divide" 2, .pop .thisField 0, .push .constant 2, .call "String.new" 1,
    .push .constant 111, .call "String.appendChar" 2, .push .constant 107,
    .call "String.appendChar" 2, .call "Output.printString" 1, .pop .temp 0, .push .pointer 0,
    .ret]

/-- The class `Board` needs no number above two, and other routines change only calls. -/
theorem compileClass_options_board :
    (Engine.fresh ⟨2, otherRoutines⟩ false board.tokens).compileClass.1 = .ok "Board" ∧
      List.Forall₂ (SameBut {} otherRoutines) boardCode
        (Engine.fresh ⟨2, otherRoutines⟩ false board.tokens).compileClass.2.code ∧
      (Engine.fresh ⟨65535, {}⟩ false board.tokens).compileClass.1 = .ok "Board" ∧
      (Engine.fresh ⟨65535, {}⟩ false board.tokens).compileClass.2.code = boardCode := by
  have hname : (Engine.fresh ⟨2, {}⟩ false board.tokens).compileClass.1 = .ok "Board" := by
    with_unfolding_all rfl
  have hcode : (Engine.fresh ⟨2, {}⟩ false board.tokens).compileClass.2.code = boardCode := by
    decide +kernel
  obtain ⟨hroutines, hlimit⟩ := compileClass_options false board.tokens
  obtain ⟨hresult, hrel, -⟩ := hroutines ⟨2, {}⟩ ⟨2, otherRoutines⟩ rfl
  obtain ⟨hraised, hsame, -⟩ := hlimit {} 2 65535 "Board" (by decide) hname
  rw [hcode] at hrel hsame
  exact ⟨hresult.trans hname, hrel, hraised, hsame⟩

end Jack
