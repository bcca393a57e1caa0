import Jack.Proofs.Grammar.Code
import Jack.Proofs.Symbol.Declared

/-!
# Effects of actions

What an action does, said over the list of declarations in force and not over a symbol table: the
condition under which it works out, the code it produces, and the point it leads to. An engine that
stands at a point does just that, so that the compilation of a script can be followed without the
engine.
-/

namespace Jack

open Grammar
open Vm (Instruction)

/-- What the actions to come depend on: the context, and the numbering of the labels. -/
structure Point extends Context where
  labels : Nat
  /-- The numbers of the branches and loops around, innermost first. -/
  openLabels : List Nat

namespace Point

/-- The variables of the class, or those of the subroutine. -/
def scope (p : Point) (classLevel : Bool) : List Variable :=
  if classLevel then p.classVars else p.subVars

/-- The point with more variables of the class or of the subroutine. -/
def extend (p : Point) (classLevel : Bool) (vs : List Variable) : Point :=
  if classLevel then { p with classVars := p.classVars ++ vs }
  else { p with subVars := p.subVars ++ vs }

/-- The number of the innermost branch or loop around. -/
def innermost (p : Point) : Nat := p.openLabels.headD 0

/-- The point inside a new branch or loop. -/
def inside (p : Point) : Point :=
  { p with labels := p.labels + 1, openLabels := p.labels :: p.openLabels }

/-- The point behind the innermost branch or loop. -/
def outside (p : Point) : Point := { p with openLabels := p.openLabels.tail }

/-- The point after `n` branches and loops. -/
def later (p : Point) (n : Nat) : Point := { p with labels := p.labels + n }

/-- The point where a subroutine is entered: of its variables only the object of a method is known.
-/
def entered (p : Point) (kind : SubroutineKind) : Point :=
  { p with subVars := if kind = .method then [⟨"this", p.className, .argument⟩] else [] }

/-- The code a subroutine starts with, which sets its object up. -/
def prologue (p : Point) : SubroutineKind → List Instruction
  | .constructor =>
    [.push .constant (Variable.count .field p.classVars).toUInt16,
      .call p.options.runtime.alloc 1, .pop .pointer 0]
  | .method => [.push .argument 0, .pop .pointer 0]
  | .function => []

section Numbering

variable (p : Point) (m n : Nat)

/-- A branch or loop does not change what is declared. -/
@[simp] lemma toContext_inside : p.inside.toContext = p.toContext := rfl

/-- Labels given out do not change what is declared. -/
@[simp] lemma toContext_later : (p.later n).toContext = p.toContext := rfl

/-- A branch or loop takes one number. -/
@[simp] lemma labels_inside : p.inside.labels = p.labels + 1 := rfl

/-- Labels given out are counted. -/
@[simp] lemma labels_later : (p.later n).labels = p.labels + n := rfl

/-- Inside a branch or loop its number is the innermost. -/
@[simp] lemma innermost_inside : p.inside.innermost = p.labels := rfl

/-- Labels given out leave the innermost branch or loop. -/
@[simp] lemma innermost_later : (p.later n).innermost = p.innermost := rfl

/-- Giving out no labels changes nothing. -/
@[simp] lemma later_zero : p.later 0 = p := rfl

/-- Labels given out twice are given out together. -/
@[simp] lemma later_later : (p.later m).later n = p.later (m + n) := by
  simp [later, Nat.add_assoc]

/-- A branch or loop is left with the numbering of its inside. -/
@[simp] lemma outside_inside_later : (p.inside.later n).outside = p.later (1 + n) := by
  simp [later, inside, outside, Nat.add_assoc]

end Numbering

end Point

/-- The instruction of a binary operation, which is native or a call of the runtime. -/
def BinaryOp.instruction (runtime : Runtime) : BinaryOp → Instruction
  | .native op => .arithmetic op
  | .multiply => .call runtime.multiply 2
  | .divide => .call runtime.divide 2

namespace Action

/-- Does an action work out? -/
def Allowed (p : Point) : Action → Prop
  | .declare name _ kind _ =>
    name ∉ Variable.names (p.scope kind.isClassLevel) ∧
      Variable.count kind (p.scope kind.isClassLevel) < maxWord
  | .missingReturn _ _ _ => False
  | .integer value _ => value ≤ p.options.maxInteger.toNat
  | .string body _ => body.length ≤ maxWord ∧ ∀ char ∈ body.toList, char.toNat ≤ maxWord
  | .require name _ => p.Declared name
  | .load name _ => p.Declared name
  | .store name _ => p.Declared name
  | .countArgument count _ => count ≤ maxWord
  | .call callee count _ => count + p.implicitArgs callee ≤ maxWord
  | _ => True

/-- The code that an action writes at a point. -/
def output (p : Point) : Action → List Instruction
  | .enterBody kind name =>
    .function (p.className ++ "." ++ name) (Variable.count .localVar p.subVars).toUInt16 ::
      p.prologue kind
  | .implicitReturn _ => [.push .pointer 0, .ret]
  | .emit i => [i]
  | .integer value _ => [.push .constant value.toUInt16]
  | .string body _ => stringCode p.options.runtime body
  | .thisObject _ => [.push .pointer 0]
  | .load name _ => p.load name
  | .store name _ => p.store name
  | .operate op => [op.instruction p.options.runtime]
  | .branchTest => [.arithmetic .not, .ifGoto (Engine.branchFalse p.innermost)]
  | .branchElse =>
    [.goto (Engine.branchEnd p.innermost), .label (Engine.branchFalse p.innermost)]
  | .branchEnd => [.label (Engine.branchEnd p.innermost)]
  | .loopTop => [.label (Engine.loopTop p.innermost)]
  | .loopTest => [.arithmetic .not, .ifGoto (Engine.loopEnd p.innermost)]
  | .loopEnd => [.goto (Engine.loopTop p.innermost), .label (Engine.loopEnd p.innermost)]
  | .receiver callee _ => p.receiver callee
  | .call callee count _ => [p.invocation callee count]
  | _ => []

/-- The point behind an action. -/
def next (p : Point) : Action → Point
  | .enterClass name => { p with className := name }
  | .declare name type kind _ => p.extend kind.isClassLevel [⟨name, type, kind⟩]
  | .enterSubroutine kind => p.entered kind
  | .openLabels => p.inside
  | .branchEnd => p.outside
  | .loopEnd => p.outside
  | _ => p

/-- Actions can be carried out one after another. -/
def AllAllowed (p : Point) : List Action → Prop
  | [] => True
  | a :: as => a.Allowed p ∧ AllAllowed (a.next p) as

/-- The code that actions write one after another. -/
def outputs (p : Point) : List Action → List Instruction
  | [] => []
  | a :: as => a.output p ++ outputs (a.next p) as

/-- The point behind actions. -/
def after (p : Point) (as : List Action) : Point := as.foldl next p

variable (p : Point) (a : Action) (as bs : List Action)

/-- An empty list of actions can be carried out. -/
@[simp] lemma allAllowed_nil : AllAllowed p [] ↔ True := Iff.rfl

/-- Actions are allowed if the first is, and the others are behind it. -/
@[simp] lemma allAllowed_cons : AllAllowed p (a :: as) ↔ a.Allowed p ∧ AllAllowed (a.next p) as :=
  Iff.rfl

/-- An empty list of actions writes nothing. -/
@[simp] lemma outputs_nil : outputs p [] = [] := rfl

/-- The code of the first action comes first. -/
@[simp] lemma outputs_cons : outputs p (a :: as) = a.output p ++ outputs (a.next p) as := rfl

/-- An empty list of actions leaves the point. -/
@[simp] lemma after_nil : after p [] = p := rfl

/-- The first action leads to where the others start. -/
@[simp] lemma after_cons : after p (a :: as) = after (a.next p) as := rfl

/-- The first actions lead to where the second ones start. -/
@[simp] lemma after_append : after p (as ++ bs) = after (after p as) bs := List.foldl_append

/-- Actions in two parts are allowed if the first part is, and the second is behind it. -/
@[simp] lemma allAllowed_append :
    AllAllowed p (as ++ bs) ↔ AllAllowed p as ∧ AllAllowed (after p as) bs := by
  induction as generalizing p with
  | nil => simp
  | cons a as ih => simp [ih, and_assoc]

/-- The code of the first part comes first. -/
@[simp] lemma outputs_append : outputs p (as ++ bs) = outputs p as ++ outputs (after p as) bs := by
  induction as generalizing p with
  | nil => simp
  | cons a as ih => simp [ih]

end Action

/-- An engine stands at a point. -/
structure Engine.At (e : Engine) (p : Point) : Prop where
  options : e.options = p.options
  className : e.className = p.className
  classScope : e.symbols.classScope.Holds true p.classVars
  subroutineScope : e.symbols.subroutineScope.Holds false p.subVars
  labels : e.labels = p.labels
  openLabels : e.openLabels = p.openLabels

/-- A step works out exactly under a condition, and has then produced some code and leads to a
point. -/
structure Step.Meets (s : Step) (ok : Prop) (code : List Instruction) (p : Point) : Prop where
  succeeds : s.error = none ↔ ok
  stands : ok → s.engine.At p
  produced : ok → s.engine.code = code

/-- A step that works out works out under a condition that holds. -/
lemma Step.Meets.provided {s : Step} {ok : Prop} {code : List Instruction} {p : Point}
    (h : s.Meets True code p) (hok : ok) : s.Meets ok code p :=
  ⟨⟨fun _ => hok, fun _ => h.succeeds.2 trivial⟩, fun _ => h.stands trivial,
    fun _ => h.produced trivial⟩

namespace Grammar.Context

/-- A name that is not declared means nothing. -/
lemma lookup?_eq_none_iff (c : Context) (name : String) :
    c.lookup? name = none ↔ ¬ c.Declared name := by
  simp [lookup?, Declared, Variable.find?_eq_none_iff]

/-- A name that is found is declared. -/
lemma declared_of_lookup? {c : Context} {name : String} {s : Symbol}
    (h : c.lookup? name = some s) : c.Declared name := by
  by_cases hd : c.Declared name
  · exact hd
  · rw [(lookup?_eq_none_iff c name).2 hd] at h
    cases h

/-- A declared name is found. -/
lemma exists_lookup? {c : Context} {name : String} (h : c.Declared name) :
    ∃ s, c.lookup? name = some s := by
  cases hs : c.lookup? name with
  | some s => exact ⟨s, rfl⟩
  | none => exact absurd h ((lookup?_eq_none_iff c name).1 hs)

/-- Loading a variable pushes from where it is found. -/
lemma load_eq (c : Context) (name : String) :
    c.load name = ((c.lookup? name).map fun s => [.push s.kind.segment s.index]).getD [] := by
  rw [load]
  cases c.lookup? name <;> rfl

/-- Storing a variable pops to where it is found. -/
lemma store_eq (c : Context) (name : String) :
    c.store name = ((c.lookup? name).map fun s => [.pop s.kind.segment s.index]).getD [] := by
  rw [store]
  cases c.lookup? name <;> rfl

end Grammar.Context

namespace Engine.At

variable {e : Engine} {p : Point}

/-- An event leaves the point. -/
lemma note (h : e.At p) (event : Event) : (e.note event).At p :=
  ⟨h.options, h.className, h.classScope, h.subroutineScope, h.labels, h.openLabels⟩

/-- An instruction leaves the point. -/
lemma emit (h : e.At p) (i : Instruction) : (e.emit i).At p := h.note _

/-- Instructions leave the point. -/
lemma emitAll (h : e.At p) (is : List Instruction) : (e.emitAll is).At p := by
  induction is generalizing e with
  | nil => exact h
  | cons i is ih => exact ih (h.emit i)

/-- The tree does not belong to the point. -/
lemma withTree (h : e.At p) (tree : Option Tree) : Engine.At { e with tree := tree } p :=
  ⟨h.options, h.className, h.classScope, h.subroutineScope, h.labels, h.openLabels⟩

/-- A step that works out in any case. -/
lemma always {f : Engine} {is : List Instruction} (h : f.At p) (hc : f.code = e.code ++ is) :
    Step.Meets ⟨f, none⟩ True (e.code ++ is) p :=
  ⟨by simp, fun _ => h, fun _ => hc⟩

/-- A step that fails meets a condition that does not hold. -/
lemma never {f : Engine} {err : CompileError} {ok : Prop} {code : List Instruction} (h : ¬ ok) :
    Step.Meets ⟨f, some err⟩ ok code p :=
  ⟨by simp [h], fun hok => absurd hok h, fun hok => absurd hok h⟩

/-- Emitting instructions always works out. -/
lemma emits (h : e.At p) (is : List Instruction) :
    Step.Meets ⟨e.emitAll is, none⟩ True (e.code ++ is) p :=
  always (h.emitAll is) (e.code_emitAll is)

/-- Emitting an instruction always works out. -/
lemma emitsOne (h : e.At p) (i : Instruction) :
    Step.Meets ⟨e.emit i, none⟩ True (e.code ++ [i]) p :=
  always (h.emit i) (e.code_emit i)

/-- A step that writes nothing always works out. -/
lemma quiet {f : Engine} (h : f.At p) (hc : f.code = e.code) :
    Step.Meets ⟨f, none⟩ True (e.code ++ []) p :=
  always h (by rw [hc, List.append_nil])

/-- The table of the engine finds the symbols of the point. -/
lemma lookup?_eq (h : e.At p) (name : String) : e.symbols.lookup? name = p.lookup? name := by
  rw [SymbolTable.lookup?, h.subroutineScope.find, h.classScope.find, Context.lookup?]

/-- The engine has the innermost label of the point. -/
lemma innermostLabel_eq (h : e.At p) : e.innermostLabel = p.innermost := by
  rw [innermostLabel, h.openLabels, Point.innermost]

/-- The engine puts the class in front of names as the point does. -/
lemma qualified_eq (h : e.At p) (name : String) :
    e.qualified name = p.className ++ "." ++ name := by
  rw [qualified, h.className]

/-- A variable is used exactly where it is declared. -/
lemma withVariable (h : e.At p) (name : String) (span : Span) (use : Symbol → List Instruction) :
    (e.withVariable name span use).Meets (p.Declared name)
      (e.code ++ ((p.lookup? name).map use).getD []) p := by
  rw [Engine.withVariable, h.lookup?_eq]
  cases hs : p.lookup? name with
  | some s =>
    have hd : p.Declared name := Context.declared_of_lookup? hs
    exact (h.emits (use s)).provided hd
  | none => exact never ((Context.lookup?_eq_none_iff _ name).1 hs)

/-- A number is pushed exactly where it is within the limit. -/
lemma integer (h : e.At p) (value : Nat) (span : Span) :
    (e.integer value span).Meets (value ≤ p.options.maxInteger.toNat)
      (e.code ++ [.push .constant value.toUInt16]) p := by
  rw [Engine.integer, h.options]
  by_cases hv : value ≤ p.options.maxInteger.toNat
  · rw [if_pos hv]
    exact (h.emitsOne _).provided hv
  · rw [if_neg hv]
    exact never hv

/-- Characters are appended exactly where each of them is a word. -/
lemma appendChars (h : e.At p) (span : Span) (cs : List Char) :
    (Engine.appendChars span e cs).Meets (∀ c ∈ cs, c.toNat ≤ maxWord)
      (e.code ++ cs.flatMap fun c =>
        [.push .constant c.toNat.toUInt16, .call p.options.runtime.stringAppend 2]) p := by
  induction cs generalizing e with
  | nil => exact (quiet h rfl).provided (by simp)
  | cons c cs ih =>
    have hw := lt_size_iff c.toNat
    rw [Engine.appendChars, h.options]
    by_cases hc : c.toNat < UInt16.size
    · have hr := ih (h.emitAll
        [.push .constant c.toNat.toUInt16, .call p.options.runtime.stringAppend 2])
      rw [if_pos hc]
      simpa [hw.1 hc] using hr
    -- Code for the characters before this one is there, but the step as a whole has failed.
    · rw [if_neg hc]
      exact never fun hok => hc (hw.2 (hok c List.mem_cons_self))

/-- A string is built exactly where its length and its characters are words. -/
lemma string (h : e.At p) (body : String) (span : Span) :
    (e.string body span).Meets
      (body.length ≤ maxWord ∧ ∀ char ∈ body.toList, char.toNat ≤ maxWord)
      (e.code ++ stringCode p.options.runtime body) p := by
  have hw := lt_size_iff body.length
  simp only [Engine.string, h.options]
  by_cases hb : body.length < UInt16.size
  · have hr := (h.emitAll [.push .constant body.length.toUInt16,
      .call p.options.runtime.stringNew 1]).appendChars span body.toList
    rw [if_pos hb]
    simpa [hw.1 hb, stringCode] using hr
  · rw [if_neg hb]
    exact never fun hok => hb (hw.2 hok.1)

/-- The object can always be pushed. -/
lemma thisObject (h : e.At p) (span : Span) :
    Step.Meets ⟨e.thisObject span, none⟩ True (e.code ++ [.push .pointer 0]) p := by
  rw [Engine.thisObject]
  split
  · refine always ((h.note _).emit _) ?_
    rw [code_emit, code_note]
    simp [Event.code, Event.instruction?]
  · exact h.emitsOne _

/-- The engine writes the instruction of an operator. -/
lemma operator_eq (h : e.At p) (op : BinaryOp) :
    e.operator op = op.instruction p.options.runtime := by
  cases op <;> simp [Engine.operator, BinaryOp.instruction, h.options]

/-- The receiver of a call can always be pushed. -/
lemma receiver (h : e.At p) (callee : Callee) (span : Span) :
    Step.Meets ⟨e.receiver callee span, none⟩ True (e.code ++ p.receiver callee) p := by
  cases callee with
  | own name =>
    simp only [Engine.receiver, Engine.target, Context.receiver]
    split
    · refine always ((h.note _).emit _) ?_
      rw [code_emit, code_note]
      simp [Event.code, Event.instruction?]
    · exact h.emitsOne _
  | member owner name =>
    simp only [Engine.receiver, Engine.target, Context.receiver, Context.load, h.lookup?_eq]
    cases p.lookup? owner with
    | some s => exact h.emitsOne _
    | none => exact quiet h rfl

/-- The engine calls the subroutine, with the implicit arguments, that the point has for the callee.
-/
lemma target_eq (h : e.At p) (callee : Callee) :
    (e.target callee).2 = p.subroutine callee ∧
      (e.target callee).1.implicitArguments = p.implicitArgs callee := by
  cases callee with
  | own name => exact ⟨h.qualified_eq name, rfl⟩
  | member owner name =>
    simp only [Engine.target, Context.subroutine, Context.implicitArgs, h.lookup?_eq]
    cases hs : p.lookup? owner with
    | some s => simp [CallTarget.implicitArguments, Context.declared_of_lookup? hs]
    | none =>
      simp [CallTarget.implicitArguments, (Context.lookup?_eq_none_iff _ owner).1 hs]

/-- A call is made exactly where its arguments can be counted. -/
lemma call (h : e.At p) (callee : Callee) (count : Nat) (span : Span) :
    (e.call callee count span).Meets (count + p.implicitArgs callee ≤ maxWord)
      (e.code ++ [p.invocation callee count]) p := by
  obtain ⟨hs, ha⟩ := h.target_eq callee
  have hw := lt_size_iff (count + p.implicitArgs callee)
  simp only [Engine.call, hs, ha]
  by_cases hc : count + p.implicitArgs callee < UInt16.size
  · rw [if_pos hc]
    refine (always ((h.note _).emit _) ?_).provided (hw.1 hc)
    rw [code_emit, code_note]
    simp [Event.code, Event.instruction?, Context.invocation]
  · rw [if_neg hc]
    exact never fun hok => hc (hw.2 hok)

/-- Opening a branch or loop leads inside it. -/
lemma openLabel (h : e.At p) : e.openLabel.At p.inside :=
  ⟨h.options, h.className, h.classScope, h.subroutineScope, by
    simp only [Engine.openLabel, Point.inside, h.labels], by
    simp only [Engine.openLabel, Point.inside, h.labels, h.openLabels]⟩

/-- Closing a branch or loop leads outside it. -/
lemma closeLabel (h : e.At p) : e.closeLabel.At p.outside :=
  ⟨h.options, h.className, h.classScope, h.subroutineScope, h.labels, by
    simp only [Engine.closeLabel, Point.outside, h.openLabels]⟩

/-- A declaration works out where the name is new and a number is left. -/
lemma declare (h : e.At p) (v : Variable) (span : Span) :
    (e.declare v.name v.type v.kind span).Meets
      (v.name ∉ Variable.names (p.scope v.kind.isClassLevel) ∧
        Variable.count v.kind (p.scope v.kind.isClassLevel) < maxWord)
      (e.code ++ []) (p.extend v.kind.isClassLevel [v]) := by
  rw [Engine.declare, SymbolTable.declare]
  cases hl : v.kind.isClassLevel with
  | true =>
    simp only [if_true, Point.scope, Point.extend]
    by_cases hd : v.name ∉ Variable.names p.classVars ∧ Variable.count v.kind p.classVars < maxWord
    · obtain ⟨after, ha, hafter⟩ := h.classScope.declare_eq_ok hl hd.1 hd.2
      rw [ha]
      refine (quiet ?_ rfl).provided hd
      exact ⟨h.options, h.className, hafter, h.subroutineScope, h.labels, h.openLabels⟩
    · obtain ⟨cause, hc⟩ := h.classScope.declare_eq_error hl hd
      rw [hc]
      exact never hd
  | false =>
    simp only [Bool.false_eq_true, if_false, Point.scope, Point.extend]
    by_cases hd : v.name ∉ Variable.names p.subVars ∧ Variable.count v.kind p.subVars < maxWord
    · obtain ⟨after, ha, hafter⟩ := h.subroutineScope.declare_eq_ok hl hd.1 hd.2
      rw [ha]
      refine (quiet ?_ rfl).provided hd
      exact ⟨h.options, h.className, h.classScope, hafter, h.labels, h.openLabels⟩
    · obtain ⟨cause, hc⟩ := h.subroutineScope.declare_eq_error hl hd
      rw [hc]
      exact never hd

/-- A subroutine starts without names of its own, but for the object of a method. -/
lemma enterSubroutine (h : e.At p) (kind : SubroutineKind) :
    (e.enterSubroutine kind).Meets True (e.code ++ []) (p.entered kind) := by
  rw [Engine.enterSubroutine]
  by_cases hk : kind = .method
  -- The object is declared in an empty scope, so its declaration cannot fail.
  · have hc : Variable.count .argument [] < maxWord := Nat.zero_lt_succ _
    let this : Variable := ⟨"this", e.className, .argument⟩
    obtain ⟨after, ha, hafter⟩ :=
      Scope.holds_empty.declare_eq_ok (v := this) rfl List.not_mem_nil hc
    simp only [if_pos hk, SymbolTable.declare, SymbolTable.startSubroutine,
      SymbolKind.isClassLevel, Bool.false_eq_true, if_false]
    rw [ha]
    refine quiet ?_ rfl
    refine ⟨h.options, h.className, h.classScope, ?_, h.labels, h.openLabels⟩
    simp only [Point.entered, if_pos hk, ← h.className]
    exact hafter
  · rw [if_neg hk]
    refine quiet ?_ rfl
    refine ⟨h.options, h.className, h.classScope, ?_, h.labels, h.openLabels⟩
    simp only [Point.entered, if_neg hk]
    exact Scope.holds_empty

/-- The engine starts subroutines with the code that the point has for them. -/
lemma prologue_eq (h : e.At p) (kind : SubroutineKind) : e.prologue kind = p.prologue kind := by
  cases kind with
  | constructor =>
    simp only [Engine.prologue, Point.prologue, SymbolTable.count, SymbolKind.isClassLevel,
      if_true, h.options, h.classScope.count_eq .field rfl]
  | function => rfl
  | method => rfl

/-- A body can always be entered. -/
lemma enterBody (h : e.At p) (kind : SubroutineKind) (name : String) :
    Step.Meets ⟨e.enterBody kind name, none⟩ True
      (e.code ++ (Action.enterBody kind name).output p) p := by
  rw [Engine.enterBody, h.prologue_eq, h.qualified_eq]
  refine always (((h.note _).emit _).emitAll _) ?_
  rw [code_emitAll, code_emit, code_note]
  simp [Event.code, Event.instruction?, Action.output, SymbolTable.count,
    SymbolKind.isClassLevel, h.subroutineScope.count_eq .localVar rfl]

/-- One action has its effect. -/
lemma perform (h : e.At p) (a : Action) :
    (e.perform a).Meets (a.Allowed p) (e.code ++ a.output p) (a.next p) := by
  cases a with
  | consume token =>
    exact quiet ⟨h.options, h.className, h.classScope, h.subroutineScope, h.labels, h.openLabels⟩
      rfl
  | openNode node => exact quiet (h.withTree _) rfl
  | closeNode node => exact quiet (h.withTree _) rfl
  | enterClass name =>
    refine quiet ?_ ((e.code_note _).trans (List.append_nil _))
    exact ⟨h.options, rfl, h.classScope, h.subroutineScope, h.labels, h.openLabels⟩
  | declare name type kind span => exact h.declare ⟨name, type, kind⟩ span
  | enterSubroutine kind => exact h.enterSubroutine kind
  | enterBody kind name => exact h.enterBody kind name
  | missingReturn kind name span => exact never id
  | implicitReturn name =>
    refine always ((h.note _).emitAll _) ?_
    rw [code_emitAll, code_note]
    simp [Event.code, Event.instruction?, Action.output]
  | emit i => exact h.emitsOne i
  | integer value span => exact h.integer value span
  | string body span => exact h.string body span
  | thisObject span => exact h.thisObject span
  | require name span =>
    -- A variable that is only required is used without producing anything.
    have hr := h.withVariable name span fun _ => []
    have hn : ((p.lookup? name).map fun _ => ([] : List Instruction)).getD [] = [] := by
      cases p.lookup? name <;> rfl
    rw [hn] at hr
    exact hr
  | load name span =>
    have hl := h.withVariable name span fun s => [.push s.kind.segment s.index]
    rw [← Context.load_eq] at hl
    exact hl
  | store name span =>
    have hs := h.withVariable name span fun s => [.pop s.kind.segment s.index]
    rw [← Context.store_eq] at hs
    exact hs
  | operate op =>
    simp only [Engine.perform, Action.output, h.operator_eq]
    exact h.emitsOne _
  | openLabels => exact quiet h.openLabel rfl
  | branchTest =>
    simp only [Engine.perform, Action.output, h.innermostLabel_eq]
    exact h.emits _
  | branchElse =>
    simp only [Engine.perform, Action.output, h.innermostLabel_eq]
    exact h.emits _
  | branchEnd =>
    simp only [Engine.perform, Action.output, h.innermostLabel_eq]
    exact always (h.emit _).closeLabel (e.code_emit _)
  | loopTop =>
    simp only [Engine.perform, Action.output, h.innermostLabel_eq]
    exact h.emitsOne _
  | loopTest =>
    simp only [Engine.perform, Action.output, h.innermostLabel_eq]
    exact h.emits _
  | loopEnd =>
    simp only [Engine.perform, Action.output, h.innermostLabel_eq]
    exact always (h.emitAll _).closeLabel (e.code_emitAll _)
  | receiver callee span => exact h.receiver callee span
  | countArgument count span =>
    have hw := lt_size_iff count
    simp only [Engine.perform, Action.Allowed]
    by_cases hc : count < UInt16.size
    · rw [if_pos hc]
      exact (quiet h rfl).provided (hw.1 hc)
    · rw [if_neg hc]
      exact never fun hok => hc (hw.2 hok)
  | call callee count span => exact h.call callee count span

/-- Actions have their effects one after another. -/
theorem performAll (h : e.At p) (as : List Action) :
    (e.performAll as).Meets (Action.AllAllowed p as) (e.code ++ Action.outputs p as)
      (Action.after p as) := by
  induction as generalizing e p with
  | nil => exact quiet h rfl
  | cons a as ih =>
    -- The run goes on from the engine after `a` where `a` works out, and stops there otherwise.
    have ha := h.perform a
    rw [Engine.performAll]
    revert ha
    obtain ⟨f, none | err⟩ := e.perform a <;> intro ha
    · have hok : a.Allowed p := ha.succeeds.1 rfl
      have hr := ih (ha.stands hok)
      rw [ha.produced hok, List.append_assoc] at hr
      exact ⟨hr.succeeds.trans (and_iff_right hok).symm, fun hall => hr.stands hall.2,
        fun hall => hr.produced hall.2⟩
    · have hok : ¬ a.Allowed p := fun hok => Option.some_ne_none err (ha.succeeds.2 hok)
      exact never fun hall => hok hall.1

end Engine.At

end Jack
