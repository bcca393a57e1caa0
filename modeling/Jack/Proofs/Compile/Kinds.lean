import Jack.Compile.Engine
import Jack.Proofs.Parse.Kinds

/-!
# Engines that differ in places

Carrying out actions does not look at spans and lexemes either. Two engines that agree but for the
tokens ahead and the places in their events still do so after the same actions, and stop at errors
of the same cause.
-/

namespace Jack

open Vm (Instruction)

/-- Two engines agree but for tokens, spans and what the log says. -/
structure Engine.Alike (e f : Engine) : Prop where
  options : e.options = f.options
  symbols : e.symbols = f.symbols
  className : e.className = f.className
  kind : e.kind = f.kind
  labels : e.labels = f.labels
  openLabels : e.openLabels = f.openLabels
  tree : e.tree = f.tree
  code : e.code = f.code

/-- Two steps lead to engines that agree, and to errors of the same cause. -/
structure Step.Alike (s t : Step) : Prop where
  engine : s.engine.Alike t.engine
  cause : s.error.map CompileError.cause = t.error.map CompileError.cause

/-- Of two steps that are alike, both succeed or none does. -/
lemma Step.Alike.error_eq_none_iff {s t : Step} (h : s.Alike t) :
    s.error = none ↔ t.error = none := by
  rw [← Option.map_eq_none_iff (f := CompileError.cause), h.cause, Option.map_eq_none_iff]

namespace Engine.Alike

variable {e f : Engine}

/-- An engine is like itself. -/
lemma refl (e : Engine) : e.Alike e := ⟨rfl, rfl, rfl, rfl, rfl, rfl, rfl, rfl⟩

/-- Events with the same code keep engines alike. -/
lemma note (h : e.Alike f) {v w : Event} (hvw : Event.code [v] = Event.code [w]) :
    (e.note v).Alike (f.note w) :=
  ⟨h.options, h.symbols, h.className, h.kind, h.labels, h.openLabels, h.tree, by
    rw [code_note, code_note, h.code, hvw]⟩

/-- An instruction keeps engines alike. -/
lemma emit (h : e.Alike f) (i : Instruction) : (e.emit i).Alike (f.emit i) := h.note rfl

/-- Instructions keep engines alike. -/
lemma emitAll (h : e.Alike f) (is : List Instruction) : (e.emitAll is).Alike (f.emitAll is) := by
  induction is generalizing e f with
  | nil => exact h
  | cons i is ih => exact ih (h.emit i)

/-- Steps that succeed and lead to engines that are alike are alike. -/
lemma ok (h : e.Alike f) : Step.Alike ⟨e, none⟩ ⟨f, none⟩ := ⟨h, rfl⟩

/-- Failures with one cause at two places are alike. -/
lemma fail (h : e.Alike f) (cause : Cause) (s t : Span) :
    (e.fail cause s).Alike (f.fail cause t) := ⟨h, rfl⟩

/-- The same symbols keep engines alike. -/
lemma withSymbols (h : e.Alike f) (symbols : SymbolTable) :
    Engine.Alike { e with symbols := symbols } { f with symbols := symbols } :=
  ⟨h.options, rfl, h.className, h.kind, h.labels, h.openLabels, h.tree, h.code⟩

/-- The same change of the trees keeps engines alike. -/
lemma withTree (h : e.Alike f) (change : Tree → Tree) :
    Engine.Alike { e with tree := e.tree.map change } { f with tree := f.tree.map change } :=
  ⟨h.options, h.symbols, h.className, h.kind, h.labels, h.openLabels, by
    simp only [h.tree], h.code⟩

/-- Engines that are alike put the same class in front of names. -/
lemma qualified (h : e.Alike f) (name : String) : e.qualified name = f.qualified name := by
  rw [Engine.qualified, Engine.qualified, h.className]

/-- In engines that are alike a call goes to the same subroutine. -/
lemma target (h : e.Alike f) (callee : Callee) : e.target callee = f.target callee := by
  cases callee with
  | own name => rw [Engine.target, Engine.target, h.qualified]
  | member owner name => rw [Engine.target, Engine.target, h.symbols]

/-- Engines that are alike have the same innermost label. -/
lemma innermostLabel (h : e.Alike f) : e.innermostLabel = f.innermostLabel := by
  rw [Engine.innermostLabel, Engine.innermostLabel, h.openLabels]

/-- A token and the same without its place and lexeme are consumed alike. -/
lemma consume (h : e.Alike f) (token : Token) : (e.consume token).Alike (f.consume token.bare) :=
  ⟨h.options, h.symbols, h.className, h.kind, h.labels, h.openLabels, by
    simp only [Engine.consume, h.tree]; rfl, h.code⟩

/-- A name is declared alike at two places. -/
lemma declare (h : e.Alike f) (name type : String) (kind : SymbolKind) (s t : Span) :
    (e.declare name type kind s).Alike (f.declare name type kind t) := by
  rw [Engine.declare, Engine.declare, h.symbols]
  obtain ⟨answer, symbols⟩ := f.symbols.declare name type kind
  cases answer with
  | ok index => exact (h.withSymbols symbols).ok
  | error cause => exact ⟨h.withSymbols symbols, rfl⟩

/-- A subroutine is entered alike. -/
lemma enterSubroutine (h : e.Alike f) (kind : SubroutineKind) :
    (e.enterSubroutine kind).Alike (f.enterSubroutine kind) := by
  have hk : Engine.Alike { e with kind := kind, symbols := e.symbols.startSubroutine }
      { f with kind := kind, symbols := f.symbols.startSubroutine } :=
    ⟨h.options, by rw [h.symbols], h.className, rfl, h.labels, h.openLabels, h.tree, h.code⟩
  have hd : e.symbols.startSubroutine.declare "this" e.className .argument =
      f.symbols.startSubroutine.declare "this" f.className .argument := by
    rw [h.symbols, h.className]
  rw [Engine.enterSubroutine, Engine.enterSubroutine]
  split
  · simp only [hd]
    obtain ⟨answer, symbols⟩ :=
      f.symbols.startSubroutine.declare "this" f.className .argument
    cases answer with
    | ok index => exact (hk.withSymbols symbols).ok
    | error cause => exact ⟨hk.withSymbols symbols, rfl⟩
  · exact hk.ok

/-- A body is entered alike. -/
lemma enterBody (h : e.Alike f) (kind : SubroutineKind) (name : String) :
    (e.enterBody kind name).Alike (f.enterBody kind name) := by
  have hp : e.prologue kind = f.prologue kind := by
    cases kind <;> simp [Engine.prologue, h.symbols, h.options]
  rw [Engine.enterBody, Engine.enterBody, h.symbols, h.qualified, hp]
  exact ((h.note rfl).emit _).emitAll _

/-- A variable is used alike at two places. -/
lemma withVariable (h : e.Alike f) (name : String) (s t : Span)
    (use : Symbol → List Instruction) :
    (e.withVariable name s use).Alike (f.withVariable name t use) := by
  rw [Engine.withVariable, Engine.withVariable, h.symbols, h.className]
  split
  · exact (h.emitAll _).ok
  · exact h.fail _ s t

/-- A number is pushed alike at two places. -/
lemma integer (h : e.Alike f) (value : Nat) (s t : Span) :
    (e.integer value s).Alike (f.integer value t) := by
  rw [Engine.integer, Engine.integer, h.options]
  split
  · exact (h.emit _).ok
  · exact h.fail _ s t

/-- Characters are appended alike at two places. -/
lemma appendChars (h : e.Alike f) (s t : Span) (cs : List Char) :
    (Engine.appendChars s e cs).Alike (Engine.appendChars t f cs) := by
  induction cs generalizing e f with
  | nil => exact h.ok
  | cons c cs ih =>
    rw [Engine.appendChars, Engine.appendChars, h.options]
    split
    · exact ih (h.emitAll _)
    · exact h.fail _ s t

/-- A string is built alike at two places. -/
lemma string (h : e.Alike f) (body : String) (s t : Span) :
    (e.string body s).Alike (f.string body t) := by
  simp only [Engine.string, h.options]
  split
  · exact (h.emitAll _).appendChars s t _
  · exact h.fail _ s t

/-- The object is pushed alike at two places. -/
lemma thisObject (h : e.Alike f) (s t : Span) : (e.thisObject s).Alike (f.thisObject t) := by
  simp only [Engine.thisObject, h.kind]
  split
  · apply Alike.emit
    exact h.note rfl
  · exact h.emit _

/-- In engines that are alike an operator has the same instruction. -/
lemma operator (h : e.Alike f) (op : BinaryOp) : e.operator op = f.operator op := by
  cases op <;> simp [Engine.operator, h.options]

/-- The receiver of a call is pushed alike at two places. -/
lemma receiver (h : e.Alike f) (callee : Callee) (s t : Span) :
    (e.receiver callee s).Alike (f.receiver callee t) := by
  simp only [Engine.receiver, h.target, h.kind]
  split
  · split
    · apply Alike.emit
      exact h.note rfl
    · exact h.emit _
  · exact h.emit _
  · exact h

/-- A call is made alike at two places. -/
lemma call (h : e.Alike f) (callee : Callee) (count : Nat) (s t : Span) :
    (e.call callee count s).Alike (f.call callee count t) := by
  simp only [Engine.call, h.target]
  split
  · exact (Alike.emit (h.note rfl) _).ok
  · exact h.fail _ s t

/-- Closing a branch or loop keeps engines alike. -/
lemma closeLabel (h : e.Alike f) : e.closeLabel.Alike f.closeLabel :=
  ⟨h.options, h.symbols, h.className, h.kind, h.labels, by
    simp only [Engine.closeLabel, h.openLabels], h.tree, h.code⟩

/-- Opening a branch or loop keeps engines alike. -/
lemma openLabel (h : e.Alike f) : e.openLabel.Alike f.openLabel :=
  ⟨h.options, h.symbols, h.className, h.kind, by simp only [Engine.openLabel, h.labels], by
    simp only [Engine.openLabel, h.labels, h.openLabels], h.tree, h.code⟩

/-- An action and the action without its places do the same. -/
lemma perform (h : e.Alike f) (a : Action) : (e.perform a).Alike (f.perform a.bare) := by
  cases a with
  | consume token => exact (h.consume token).ok
  | openNode node => exact (h.withTree _).ok
  | closeNode node => exact (h.withTree _).ok
  | enterClass name =>
    have hn : (e.note (.enteredClass name)).Alike (f.note (.enteredClass name)) := h.note rfl
    exact ⟨⟨h.options, h.symbols, rfl, h.kind, h.labels, h.openLabels, h.tree, hn.code⟩, rfl⟩
  -- A bare action is about nowhere, and only the place of a failure depends on that.
  | declare name type kind span => exact h.declare name type kind span nowhere
  | enterSubroutine kind => exact h.enterSubroutine kind
  | enterBody kind name => exact (h.enterBody kind name).ok
  | missingReturn kind name span =>
    simp only [Engine.perform, Action.bare, h.qualified]
    exact h.fail _ span nowhere
  | implicitReturn name =>
    simp only [Engine.perform, Action.bare, h.qualified]
    exact (Alike.emitAll (h.note rfl) _).ok
  | emit i => exact (h.emit i).ok
  | integer value span => exact h.integer value span nowhere
  | string body span => exact h.string body span nowhere
  | thisObject span => exact (h.thisObject span nowhere).ok
  | require name span => exact h.withVariable name span nowhere _
  | load name span => exact h.withVariable name span nowhere _
  | store name span => exact h.withVariable name span nowhere _
  | operate op =>
    simp only [Engine.perform, Action.bare, h.operator]
    exact (h.emit _).ok
  | openLabels => exact h.openLabel.ok
  | branchTest | branchElse | loopTest =>
    simp only [Engine.perform, Action.bare, h.innermostLabel]
    exact (h.emitAll _).ok
  | branchEnd =>
    simp only [Engine.perform, Action.bare, h.innermostLabel]
    exact (h.emit _).closeLabel.ok
  | loopTop =>
    simp only [Engine.perform, Action.bare, h.innermostLabel]
    exact (h.emit _).ok
  | loopEnd =>
    simp only [Engine.perform, Action.bare, h.innermostLabel]
    exact (h.emitAll _).closeLabel.ok
  | receiver callee span => exact (h.receiver callee span nowhere).ok
  | countArgument count span =>
    simp only [Engine.perform, Action.bare]
    split
    · exact h.ok
    · exact h.fail _ span nowhere
  | call callee count span => exact h.call callee count span nowhere

/-- Actions and the actions without their places do the same. -/
lemma performAll (h : e.Alike f) (as : List Action) :
    (e.performAll as).Alike (f.performAll (as.map Action.bare)) := by
  induction as generalizing e f with
  | nil => exact h.ok
  | cons a as ih =>
    have ha := h.perform a
    rw [List.map_cons, Engine.performAll, Engine.performAll]
    revert ha
    obtain ⟨e', none | err⟩ := e.perform a <;> obtain ⟨f', none | err'⟩ := f.perform a.bare <;>
      intro ha
    · exact ih ha.engine
    · cases ha.cause
    · cases ha.cause
    · exact ha

end Engine.Alike

end Jack
