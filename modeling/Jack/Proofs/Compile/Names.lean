import Jack.Compile
import Jack.Proofs.Parse.Prefix
import Jack.Proofs.Symbol.Declared
import Jack.Proofs.Token.Tokenization
import Jack.Proofs.Vm.Text
import Mathlib.Data.List.Basic
import Mathlib.Data.Option.Basic

/-!
# Names in compiled code

The names of a source are words, and a word holds neither blanks nor slashes (`Plain`). Names reach
the code by way of goals and actions, the name of the class and the types in the symbol table; each
move and each action keeps them plain, so all code can be written and read again, whether the
compilation succeeds or fails.
-/

namespace Jack

open Vm Text Script

/-- A text without blanks and slashes. -/
def Plain (name : String) : Prop := ∀ c ∈ name.toList, Inner c

instance (name : String) : Decidable (Plain name) := List.decidableBAll Inner name.toList

/-- The text of a keyword is plain. -/
lemma plain_keyword (k : Keyword) : Plain k.text := by
  cases k <;> decide +kernel

/-- The full name of a subroutine is a word of program text. -/
lemma legible_qualified {a b : String} (ha : Plain a) (hb : Plain b) :
    Legible (a ++ "." ++ b).toList := by
  have hl : (a ++ "." ++ b).toList = a.toList ++ '.' :: b.toList := by simp
  rw [hl]
  refine legible_of_inner (by simp) fun c hc => ?_
  rw [List.mem_append, List.mem_cons] at hc
  obtain hc | rfl | hc := hc
  · exact ha c hc
  · exact ⟨by decide, by decide⟩
  · exact hb c hc

/-- A label is a word of program text. -/
lemma legible_numbered {pre : String} (hne : pre ≠ "") (h : Plain pre) (n : Nat) :
    Legible (pre ++ n.repr).toList := by
  rw [String.toList_append]
  refine legible_of_inner (fun hn => hne ?_) fun c hc => ?_
  · exact String.toList_eq_nil_iff.1 (List.append_eq_nil_iff.1 hn).1
  · obtain hc | hc := List.mem_append.1 hc
    · exact h c hc
    · exact inner_of_isDigit (Instruction.isDigit_of_mem_repr hc)

/-- The labels of branches and loops can be read back. -/
lemma Engine.legible_labels (n : Nat) :
    Legible (branchFalse n).toList ∧ Legible (branchEnd n).toList ∧
      Legible (loopTop n).toList ∧ Legible (loopEnd n).toList := by
  refine ⟨?_, ?_, ?_, ?_⟩
  all_goals
    refine legible_numbered ?_ ?_ n
    · decide
    · decide +kernel

/-! ### Moves -/

/-- The identifier of a token, if it is one, is plain. -/
def TokenKind.Plain : TokenKind → Prop
  | .identifier name => Jack.Plain name
  | _ => True

/-- The names in a call are plain. -/
def Callee.Plain : Callee → Prop
  | .own name => Jack.Plain name
  | .member owner name => Jack.Plain owner ∧ Jack.Plain name

/-- The names that an action brings into the code are plain. -/
def Action.Plain : Action → Prop
  | .enterClass name | .enterBody _ name => Jack.Plain name
  | .declare _ type _ _ => Jack.Plain type
  | .emit i => i.Writable
  | .call callee _ _ => callee.Plain
  | _ => True

/-- The names that a goal holds are plain. -/
def Goal.Plain : Goal → Prop
  | .perform actions => actions.Forall Action.Plain
  | .variable type _ | .moreVariables type _ => Jack.Plain type
  | .afterName name _ | .callRest name _ | .member name _ => Jack.Plain name
  | .arguments callee | .argument callee _ | .moreArguments callee _ => callee.Plain
  | _ => True

/-- The actions and the goals of a move are plain. -/
def Move.Plain (m : Move) : Prop := m.actions.Forall Action.Plain ∧ m.goals.Forall Goal.Plain

namespace Move

variable {k : TokenKind}

/-- Meeting an identifier is plain where the goals behind it are. -/
lemma plain_identifier {goals : String → List Goal} (hk : k.Plain)
    (h : ∀ name, Jack.Plain name → (goals name).Forall Goal.Plain) :
    (identifier goals k).Plain := by
  cases k with
  | identifier name => exact ⟨trivial, h name hk⟩
  | _ => trivial

/-- The name of a type is plain. -/
lemma plain_typeName? {type : String} (hk : k.Plain) (h : k.typeName? = some type) :
    Jack.Plain type := by
  unfold TokenKind.typeName? at h
  split at h
  · cases h; exact plain_keyword _
  · cases h; exact plain_keyword _
  · cases h; exact plain_keyword _
  · cases h; exact hk
  · cases h

/-- Meeting a type is plain where the goals behind it are. -/
lemma plain_type {goals : String → List Goal} (hk : k.Plain)
    (h : ∀ name, Jack.Plain name → (goals name).Forall Goal.Plain) : (type goals k).Plain := by
  unfold type
  split
  · next name hn => exact ⟨trivial, h name (plain_typeName? hk hn)⟩
  · trivial

/-- The end of the arguments of a plain call is plain. -/
lemma plain_closeArguments {callee : Callee} (hc : callee.Plain) (count : Nat) (k : TokenKind)
    (here : Span) : (closeArguments callee count k here).Plain := by
  unfold closeArguments
  split
  · exact ⟨trivial, hc⟩
  · trivial

/-- The words that are terms have plain actions. -/
lemma plain_termKeyword {w : Keyword} {here : Span} {code : List Action}
    (h : termKeyword w here = some code) : code.Forall Action.Plain := by
  unfold termKeyword at h
  split at h <;> cases h <;> trivial

/-- The symbols in front of a term have plain goals. -/
lemma plain_termSymbol {c : Char} {goals : List Goal} (h : termSymbol c = some goals) :
    goals.Forall Goal.Plain := by
  unfold termSymbol at h
  split at h
  · cases h
    trivial
  · obtain ⟨op, _, rfl⟩ := Option.map_eq_some_iff.1 h
    trivial

/-- Meeting a term is plain. -/
lemma plain_term (hk : k.Plain) (here : Span) : (term k here).Plain := by
  cases k with
  | keyword w =>
    simp only [term]
    split
    · next code hc =>
      exact ⟨(List.forall_cons _ _ _).2 ⟨trivial, plain_termKeyword hc⟩, trivial⟩
    · trivial
  | symbol c =>
    simp only [term]
    split
    · next goals hg =>
      exact ⟨trivial, List.forall_append.2 ⟨plain_termSymbol hg, trivial⟩⟩
    · trivial
  | identifier name => exact ⟨trivial, hk, trivial⟩
  | _ => trivial

/-- The end of a block is plain. -/
lemma plain_closeBlock (block : Block) (returned : Bool) (here : Span) :
    (closeBlock block returned here).Plain := by
  unfold closeBlock
  split
  · trivial
  · split
    · trivial
    · split <;> trivial

/-- Meeting a statement or the end of a block is plain. -/
lemma plain_statements (block : Block) (returned : Bool) (here : Span) :
    (statements block returned k here).Plain := by
  unfold statements
  split
  case h_4 => exact ⟨trivial, trivial, trivial, ⟨nofun, trivial⟩, trivial⟩
  case h_6 => exact plain_closeBlock block returned here
  all_goals trivial

/-- Meeting the rest of an assignment is plain. -/
lemma plain_letRest (name : String) (span : Span) : (letRest name span k).Plain := by
  unfold letRest
  split
  · exact ⟨trivial, trivial, trivial, ⟨trivial, trivial⟩, trivial, trivial, trivial, nofun, nofun,
      trivial, nofun⟩
  · trivial

/-- What follows a plain name in a term is plain. -/
lemma plain_afterName {name : String} (h : Jack.Plain name) (span : Span) :
    (afterName name span k).Plain := by
  unfold afterName
  split
  · exact ⟨trivial, trivial, trivial, trivial, trivial, trivial, nofun, trivial⟩
  · split
    · exact ⟨trivial, h⟩
    · trivial

end Move

/-- Every move keeps names plain. -/
lemma Goal.plain_predict {g : Goal} {k : TokenKind} (h : g.Plain) (hk : k.Plain) (here : Span) :
    (g.predict k here).Plain := by
  cases g
  case perform actions => exact ⟨h, trivial⟩
  case className => exact Move.plain_identifier hk fun name hn => hn
  case «variables» kind => exact Move.plain_type hk fun type ht => ⟨ht, ht⟩
  case «variable» type kind => exact Move.plain_identifier hk fun name _ => h
  case moreVariables type kind =>
    simp only [predict, Move.afterComma]
    split
    · exact ⟨trivial, h, h⟩
    · trivial
  case resultType =>
    simp only [predict, Move.resultType]
    split
    · trivial
    · exact Move.plain_type hk fun _ _ => trivial
  case subroutineName kind =>
    refine Move.plain_identifier hk fun name hn => ?_
    exact ⟨trivial, trivial, trivial, trivial, trivial, trivial, trivial, trivial, trivial,
      ⟨hn, trivial⟩, trivial⟩
  case statements block returned => exact Move.plain_statements block returned here
  case parameter => exact Move.plain_type hk fun type ht => ht
  case letTarget => exact Move.plain_identifier hk fun name _ => ⟨trivial, trivial⟩
  case letRest name span => exact Move.plain_letRest name span
  case term => exact Move.plain_term hk here
  case afterName name span => exact Move.plain_afterName h span
  case calledName => exact Move.plain_identifier hk fun name hn => hn
  case callRest name span =>
    simp only [predict, Move.callRest]
    split
    · exact ⟨trivial, h⟩
    · exact ⟨trivial, trivial, trivial, trivial, h⟩
  case member owner span =>
    exact Move.plain_identifier hk fun name hn => ⟨trivial, trivial, trivial, h, hn⟩
  case arguments callee =>
    simp only [predict, Move.arguments]
    split
    · exact Move.plain_closeArguments h _ _ _
    · exact ⟨trivial, h⟩
  case argument callee count => exact ⟨trivial, trivial, trivial, h⟩
  case moreArguments callee count =>
    simp only [predict, Move.moreArguments]
    split
    · exact ⟨trivial, h⟩
    · exact Move.plain_closeArguments h _ _ _
  -- No other goal meets or holds a name.
  all_goals
    simp only [predict, Move.symbol, Move.keyword, Move.classVarDecs, Move.subroutineDecs,
      Move.endOfInput, Move.parameters, Move.afterComma, Move.varDecs, Move.elsePart,
      Move.innerBlock, Move.returnValue, Move.operators]
    repeat' split
  all_goals trivial

/-! ### Scripts -/

namespace Script

/-- The current one of plain tokens is plain. -/
lemma plain_currentKind {tokens : List Token} (h : ∀ t ∈ tokens, t.kind.Plain) :
    (currentKind tokens).Plain := by
  cases tokens with
  | nil => trivial
  | cons t ts => exact h t List.mem_cons_self

/-- Meeting plain goals adds plain actions. -/
lemma plain_meetOnto {tokens : List Token} {last : Span} {goals : List Goal}
    (ht : ∀ t ∈ tokens, t.kind.Plain) (hg : goals.Forall Goal.Plain) :
    (meetOnto tokens last goals #[]).actions.Forall Action.Plain := by
  induction tokens, last, goals using meetOnto_induction with
  | nil tokens last =>
    rw [meetOnto_nil]
    trivial
  | skip tokens last goal goals actions new h ih =>
    rw [List.forall_cons] at hg
    have hm := Goal.plain_predict hg.1 (plain_currentKind ht) (currentSpan last tokens)
    rw [h] at hm
    rw [meetOnto_skip h]
    exact List.forall_append.2 ⟨hm.1, ih ht (List.forall_append.2 ⟨hm.2, hg.2⟩)⟩
  | take token rest last goal goals actions new h ih =>
    rw [List.forall_cons] at hg
    have hm := Goal.plain_predict hg.1 (plain_currentKind ht) (currentSpan last (token :: rest))
    rw [h] at hm
    have hr : ∀ t ∈ rest, t.kind.Plain := fun t hm => ht t (List.mem_cons_of_mem token hm)
    rw [meetOnto_take h]
    exact List.forall_append.2 ⟨List.forall_append.2 ⟨hm.1, trivial⟩,
      ih hr (List.forall_append.2 ⟨hm.2, hg.2⟩)⟩
  | reject tokens last goal goals actions expected h =>
    rw [List.forall_cons] at hg
    have hm := Goal.plain_predict hg.1 (plain_currentKind ht) (currentSpan last tokens)
    rw [h] at hm
    rw [meetOnto_reject h]
    exact hm.1

/-- The script of plain tokens has plain actions. -/
lemma plain_ofTokens {tokens : List Token} (ht : ∀ t ∈ tokens, t.kind.Plain) (last : Span) :
    (ofTokens tokens last).actions.Forall Action.Plain :=
  plain_meetOnto ht ⟨trivial, trivial, trivial, trivial, trivial⟩

end Script

/-! ### Symbol tables -/

/-- The types in a scope are plain. -/
def Scope.Plain (s : Scope) : Prop :=
  ∀ (name : String) (symbol : Symbol), s.symbols[name]? = some symbol → Jack.Plain symbol.type

/-- An empty scope has no types. -/
lemma Scope.plain_empty : Scope.Plain {} := by
  intro name symbol h
  simp at h

/-- Declaring a variable of a plain type keeps the types plain. -/
lemma Scope.Plain.declare {s : Scope} (h : s.Plain) (name : String) {type : String}
    (ht : Jack.Plain type) (kind : SymbolKind) : (s.declare name type kind).2.Plain := by
  obtain ⟨earlier, -, hd⟩ | ⟨-, -, hd⟩ | ⟨-, next, -, hd⟩ := s.declare_cases name type kind
  · rwa [hd]
  · rwa [hd]
  · rw [hd]
    intro x symbol hx
    rw [Scope.extended, Std.TreeMap.getElem?_insert] at hx
    split at hx
    · cases hx
      exact ht
    · exact h x symbol hx

/-- The types of all variables are plain. -/
structure SymbolTable.Plain (t : SymbolTable) : Prop where
  classScope : t.classScope.Plain
  subroutineScope : t.subroutineScope.Plain

namespace SymbolTable.Plain

variable {t : SymbolTable}

/-- Forgetting the variables of a subroutine leaves plain types. -/
lemma startSubroutine (h : t.Plain) : t.startSubroutine.Plain :=
  ⟨h.classScope, Scope.plain_empty⟩

/-- Declaring a variable of a plain type keeps both scopes plain. -/
lemma declare (h : t.Plain) (name : String) {type : String} (ht : Jack.Plain type)
    (kind : SymbolKind) : (t.declare name type kind).2.Plain := by
  rw [SymbolTable.declare]
  split
  · exact ⟨h.classScope.declare name ht kind, h.subroutineScope⟩
  · exact ⟨h.classScope, h.subroutineScope.declare name ht kind⟩

/-- The type of a variable that is found is plain. -/
lemma type_of_lookup? (h : t.Plain) {name : String} {symbol : Symbol}
    (hl : t.lookup? name = some symbol) : Jack.Plain symbol.type := by
  unfold SymbolTable.lookup? at hl
  obtain hl | ⟨-, hl⟩ := (Option.orElse_eq_some _ _ _).1 hl
  · exact h.subroutineScope name symbol hl
  · exact h.classScope name symbol hl

end SymbolTable.Plain

/-! ### Engines -/

/-- The names of the library routines. -/
def Runtime.names (r : Runtime) : List String :=
  [r.alloc, r.multiply, r.divide, r.stringNew, r.stringAppend]

/-- An engine whose names are plain, and whose code can be written. -/
structure Engine.Plain (e : Engine) : Prop where
  runtime : ∀ name ∈ e.options.runtime.names, Legible name.toList
  className : Jack.Plain e.className
  symbols : e.symbols.Plain
  code : ∀ i ∈ e.code, i.Writable

namespace Engine.Plain

variable {e : Engine}

/-- An event without an instruction keeps an engine plain. -/
lemma note (h : e.Plain) {event : Event} (hv : event.instruction? = none) :
    (e.note event).Plain where
  runtime := h.runtime
  className := h.className
  symbols := h.symbols
  code := by
    have hn : Event.code [event] = [] := by
      rw [Event.code, List.filterMap_cons_none hv, List.filterMap_nil]
    rw [code_note, hn, List.append_nil]
    exact h.code

/-- An instruction that can be written keeps an engine plain. -/
lemma emit (h : e.Plain) {i : Instruction} (hi : i.Writable) : (e.emit i).Plain where
  runtime := h.runtime
  className := h.className
  symbols := h.symbols
  code := by
    rw [code_emit, List.forall_mem_append, List.forall_mem_singleton]
    exact ⟨h.code, hi⟩

/-- Instructions that can be written keep an engine plain. -/
lemma emitAll (h : e.Plain) {is : List Instruction} (hi : is.Forall Instruction.Writable) :
    (e.emitAll is).Plain := by
  induction is generalizing e with
  | nil => exact h
  | cons i is ih =>
    rw [List.forall_cons] at hi
    exact ih (h.emit hi.1) hi.2

/-- A table with plain types keeps an engine plain. -/
lemma withSymbols (h : e.Plain) {symbols : SymbolTable} (hs : symbols.Plain) :
    Engine.Plain { e with symbols := symbols } :=
  ⟨h.runtime, h.className, hs, h.code⟩

/-- Declaring a name with a plain type keeps an engine plain. -/
lemma declare (h : e.Plain) (name : String) {type : String} (ht : Jack.Plain type)
    (kind : SymbolKind) (span : Span) : (e.declare name type kind span).engine.Plain := by
  have hs := h.symbols.declare name ht kind
  unfold Engine.declare
  generalize e.symbols.declare name type kind = out at hs
  obtain ⟨answer, symbols⟩ := out
  cases answer with
  | ok index => exact h.withSymbols hs
  | error cause => exact h.withSymbols hs

/-- Entering a subroutine keeps an engine plain, as the object has the class for its type. -/
lemma enterSubroutine (h : e.Plain) (kind : SubroutineKind) :
    (e.enterSubroutine kind).engine.Plain := by
  have hk : Engine.Plain { e with kind := kind, symbols := e.symbols.startSubroutine } :=
    ⟨h.runtime, h.className, h.symbols.startSubroutine, h.code⟩
  have hs := hk.symbols.declare "this" h.className .argument
  unfold Engine.enterSubroutine
  simp only at hs ⊢
  split
  · generalize e.symbols.startSubroutine.declare "this" e.className .argument = out at hs
    obtain ⟨answer, symbols⟩ := out
    cases answer with
    | ok index => exact hk.withSymbols hs
    | error cause => exact hk.withSymbols hs
  · exact hk

/-- The code a subroutine starts with can be written. -/
lemma prologue (h : e.Plain) (kind : SubroutineKind) :
    (e.prologue kind).Forall Instruction.Writable := by
  cases kind with
  | constructor => exact ⟨trivial, h.runtime _ (by simp [Runtime.names]), nofun⟩
  | method => exact ⟨trivial, nofun⟩
  | function => trivial

/-- Entering the body of a subroutine with a plain name keeps an engine plain. -/
lemma enterBody (h : e.Plain) (kind : SubroutineKind) {name : String} (hn : Jack.Plain name) :
    (e.enterBody kind name).Plain := by
  refine emitAll (emit (h.note rfl) ?_) (h.prologue kind)
  exact legible_qualified h.className hn

/-- Using a variable keeps an engine plain, if the instructions can be written. -/
lemma withVariable (h : e.Plain) (name : String) (span : Span) {use : Symbol → List Instruction}
    (hu : ∀ symbol, (use symbol).Forall Instruction.Writable) :
    (e.withVariable name span use).engine.Plain := by
  unfold Engine.withVariable
  split
  · exact h.emitAll (hu _)
  · exact h

/-- Pushing a number keeps an engine plain. -/
lemma integer (h : e.Plain) (value : Nat) (span : Span) :
    (e.integer value span).engine.Plain := by
  unfold Engine.integer
  split
  · exact h.emit trivial
  · exact h

/-- Appending characters keeps an engine plain, as the runtime has legible names. -/
lemma appendChars (h : e.Plain) (span : Span) (cs : List Char) :
    (Engine.appendChars span e cs).engine.Plain := by
  induction cs generalizing e with
  | nil => exact h
  | cons c cs ih =>
    unfold Engine.appendChars
    split
    · exact ih (h.emitAll ⟨trivial, h.runtime _ (by simp [Runtime.names])⟩)
    · exact h

/-- Building a string keeps an engine plain, as the runtime has legible names. -/
lemma string (h : e.Plain) (body : String) (span : Span) :
    (e.string body span).engine.Plain := by
  unfold Engine.string
  simp only
  split
  · refine appendChars (h.emitAll ?_) span _
    exact ⟨trivial, h.runtime _ (by simp [Runtime.names])⟩
  · exact h

/-- Pushing the object keeps an engine plain. -/
lemma thisObject (h : e.Plain) (span : Span) : (e.thisObject span).Plain := by
  unfold Engine.thisObject
  simp only
  split
  · exact emit (h.note rfl) trivial
  · exact h.emit trivial

/-- The instruction of an operator can be written. -/
lemma operator (h : e.Plain) (op : BinaryOp) : (e.operator op).Writable := by
  cases op with
  | native op => trivial
  | multiply => exact h.runtime _ (by simp [Runtime.names])
  | divide => exact h.runtime _ (by simp [Runtime.names])

/-- The subroutine that a plain call goes to has a legible name. -/
lemma target (h : e.Plain) {callee : Callee} (hc : callee.Plain) :
    Legible (e.target callee).2.toList := by
  cases callee with
  | own name => exact legible_qualified h.className hc
  | member owner name =>
    unfold Engine.target
    simp only
    split
    · next hl => exact legible_qualified (h.symbols.type_of_lookup? hl) hc.2
    · exact legible_qualified hc.1 hc.2

/-- Pushing the receiver of a call keeps an engine plain. -/
lemma receiver (h : e.Plain) (callee : Callee) (span : Span) : (e.receiver callee span).Plain := by
  unfold Engine.receiver
  split
  · simp only
    split
    · exact emit (h.note rfl) trivial
    · exact h.emit trivial
  · exact h.emit trivial
  · exact h

/-- Making a plain call keeps an engine plain. -/
lemma call (h : e.Plain) {callee : Callee} (hc : callee.Plain) (count : Nat) (span : Span) :
    (e.call callee count span).engine.Plain := by
  unfold Engine.call
  simp only
  split
  · exact emit (h.note rfl) (h.target hc)
  · exact h

/-- Opening a branch or loop keeps an engine plain. -/
lemma openLabel (h : e.Plain) : e.openLabel.Plain := ⟨h.runtime, h.className, h.symbols, h.code⟩

/-- Closing a branch or loop keeps an engine plain. -/
lemma closeLabel (h : e.Plain) : e.closeLabel.Plain := ⟨h.runtime, h.className, h.symbols, h.code⟩

/-- Every action with plain names leaves an engine with plain names, also where it fails. -/
lemma perform (h : e.Plain) {a : Action} (ha : a.Plain) : (e.perform a).engine.Plain := by
  obtain ⟨hfalse, hend, htop, hout⟩ := legible_labels e.innermostLabel
  cases a with
  | consume token => exact ⟨h.runtime, h.className, h.symbols, h.code⟩
  | openNode node => exact ⟨h.runtime, h.className, h.symbols, h.code⟩
  | closeNode node => exact ⟨h.runtime, h.className, h.symbols, h.code⟩
  | enterClass name =>
    have hn : (e.note (.enteredClass name)).Plain := h.note rfl
    exact ⟨h.runtime, ha, h.symbols, hn.code⟩
  | declare name type kind span => exact h.declare name ha kind span
  | enterSubroutine kind => exact h.enterSubroutine kind
  | enterBody kind name => exact h.enterBody kind ha
  | missingReturn kind name span => exact h
  | implicitReturn name => exact emitAll (h.note rfl) ⟨trivial, trivial⟩
  | emit i => exact h.emit ha
  | integer value span => exact h.integer value span
  | string body span => exact h.string body span
  | thisObject span => exact h.thisObject span
  | require name span => exact h.withVariable name span fun _ => trivial
  | load name span => exact h.withVariable name span fun _ => trivial
  | store name span => exact h.withVariable name span fun s => s.kind.segment_ne_constant
  | operate op => exact h.emit (h.operator op)
  | openLabels => exact h.openLabel
  | branchTest => exact h.emitAll ⟨trivial, hfalse⟩
  | branchElse => exact h.emitAll ⟨hend, hfalse⟩
  | branchEnd => exact closeLabel (h.emit hend)
  | loopTop => exact h.emit htop
  | loopTest => exact h.emitAll ⟨trivial, hout⟩
  | loopEnd => exact closeLabel (h.emitAll ⟨htop, hout⟩)
  | receiver callee span => exact h.receiver callee span
  | countArgument count span =>
    unfold Engine.perform
    simp only
    split
    · exact h
    · exact h
  | call callee count span => exact h.call ha count span

/-- Plain actions keep an engine plain. -/
lemma performAll (h : e.Plain) {as : List Action} (ha : as.Forall Action.Plain) :
    (e.performAll as).engine.Plain := by
  induction as generalizing e with
  | nil => exact h
  | cons a as ih =>
    rw [List.forall_cons] at ha
    have hp := h.perform ha.1
    unfold Engine.performAll
    split
    · next e' he =>
      rw [he] at hp
      exact ih hp ha.2
    · exact hp

/-- Compiling a class leaves code that can be written, whether it succeeds or fails. -/
lemma compileClass (h : e.Plain) (ht : ∀ t ∈ e.tokens, t.kind.Plain) :
    e.compileClass.2.Plain := by
  have h' : Engine.Plain { e with openLabels := [] } :=
    ⟨h.runtime, h.className, h.symbols, h.code⟩
  have hp := h'.performAll (Script.plain_ofTokens ht e.last)
  unfold Engine.compileClass
  simp only
  split
  · next he =>
    rw [he] at hp
    exact hp
  · next he =>
    rw [he] at hp
    split
    · exact hp
    · exact hp

end Engine.Plain

/-! ### Sources -/

/-- A name that is spelled as a word is plain. -/
lemma plain_of_word {name : String} {rest : List UInt8} (h : WholeWord (Utf8.bytes name) rest) :
    Plain name := by
  obtain ⟨⟨b, bs, hw, hb, hbs⟩, -⟩ := h
  have hd : ∀ d ∈ Utf8.bytes name, IsLetter d ∨ IsDigit d := by
    rw [hw, List.forall_mem_cons]
    exact ⟨.inl hb, hbs⟩
  intro c hc
  obtain ⟨x, xs, he, hf⟩ := Utf8.exists_form_utf8EncodeChar c
  have hx : x ∈ Utf8.bytes name := by
    refine List.mem_flatMap.2 ⟨c, hc, ?_⟩
    rw [he]
    exact List.mem_cons_self
  have hr := hd x hx
  simp only [IsLetter, IsDigit, UInt8.le_iff_toNat_le, ← UInt8.toNat_inj, UInt8.reduceToNat] at hr
  have hv := hf.eq_of_le (by omega)
  exact inner_of_range (by omega) (by omega)

/-- A token that is spelled out is plain. -/
lemma Spells.plain {w rest : List UInt8} {k : TokenKind} (h : Spells w rest k) : k.Plain := by
  cases h with
  | identifier hw hb _ =>
    subst hb
    exact plain_of_word hw
  | _ => trivial

/-- The names in the tokens of a source are plain. -/
lemma plain_tokensOf (source : String) : ∀ t ∈ tokensOf source, t.kind.Plain :=
  forall_kind_tokensOf trivial Spells.plain source

/-- The text of what a source compiles to is read back as the code, also where the source is
refused. -/
theorem decode_listing_compileSource (options : Options) (source : String)
    (h : ∀ name ∈ options.runtime.names, Legible name.toList) :
    let c := compileSource options source
    Instruction.decode (Instruction.listing c.engine.code) = c.engine.code.map .ok ∧
      compileToVm options source = c.result.map fun _ => Instruction.listing c.engine.code := by
  have hs : (Engine.start options (tokensOf source)).Plain :=
    ⟨h, fun c hc => (nomatch hc), ⟨Scope.plain_empty, Scope.plain_empty⟩, fun i hi => (nomatch hi)⟩
  have hc := hs.compileClass (plain_tokensOf source)
  exact ⟨Instruction.decode_listing hc.code, rfl⟩

/-- The code of a class without its last brace is read back, with a slash in the name of a routine.
-/
theorem decode_listing_open_return :
    let options : Options := { runtime := { multiply := "a/b" } }
    let source := "class A { function int f() { return 2 * 3 } }"
    let c := compileSource options source
    (∀ name ∈ options.runtime.names, Legible name.toList) ∧ c.result.isOk = false ∧
      c.engine.code =
        [.function "A.f" 0, .push .constant 2, .push .constant 3, .call "a/b" 2] ∧
      Instruction.decode (Instruction.listing c.engine.code) = c.engine.code.map .ok ∧
      compileToVm options source = c.result.map fun _ => Instruction.listing c.engine.code := by
  refine ⟨by decide +kernel, by decide +kernel, by decide +kernel, ?_⟩
  exact decode_listing_compileSource _ _ (by decide +kernel)

end Jack
