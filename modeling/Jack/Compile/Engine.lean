import Jack.Compile.Event
import Jack.Error
import Jack.Options
import Jack.Parse.Script
import Jack.Tree

/-!
# The compiler

The engine carries out the actions of a script in one pass: it keeps the symbol table, numbers the
labels, records the parse tree if asked to, and notes every instruction as an event. It stops at the
first error and keeps what it has done so far, so that a further compilation goes on at the token
that stopped it.
-/

namespace Jack

open Vm (Instruction)

/-- The state of the compiler. -/
structure Engine where
  options : Options
  /-- The tokens still to be taken. -/
  tokens : List Token
  /-- The span of the last token taken. -/
  last : Span := .point .origin
  symbols : SymbolTable := {}
  className : String := ""
  kind : SubroutineKind := .function
  /-- The number for the next pair of labels. -/
  labels : Nat := 0
  /-- The numbers of the branches and loops around the current token, innermost first. -/
  openLabels : List Nat := []
  /-- The parse tree, if it is recorded. -/
  tree : Option Tree := none
  /-- What has happened. -/
  events : Array Event := #[]

/-- The engine after an action, with the error if it was the last one. -/
structure Step where
  engine : Engine
  /-- Why nothing follows. -/
  error : Option CompileError := none

namespace Engine

/-- The engine before its first token. -/
def start (options : Options) (tokens : List Token) : Engine :=
  { options := options, tokens := tokens }

/-- The code produced so far. -/
def code (e : Engine) : List Instruction := Event.code e.events.toList

/-- Records the parse tree from here on. -/
def recordTree (e : Engine) : Engine := { e with tree := some .empty }

/-- Hands out the recorded tree and stops recording. -/
def takeTree (e : Engine) : Option String × Engine :=
  (e.tree.map Tree.text, { e with tree := none })

/-- The error that the current token is not what was expected. -/
def unexpected (e : Engine) (expected : Expected) : CompileError :=
  match e.tokens with
  | [] => ⟨.unexpected expected none, some e.last⟩
  | t :: _ =>
    match t.kind with
    | .error lexError => ⟨.lexical lexError, some t.span⟩
    | _ => ⟨.unexpected expected (some t), some t.span⟩

/-- Notes an event. -/
def note (e : Engine) (event : Event) : Engine :=
  { e with events := e.events.push event }

/-- Produces an instruction. -/
def emit (e : Engine) (i : Instruction) : Engine := e.note (.emitted i)

/-- Produces instructions. -/
def emitAll (e : Engine) (is : List Instruction) : Engine := is.foldl emit e

/-- The code of an event is written behind the code so far. -/
theorem code_note (e : Engine) (event : Event) :
    (e.note event).code = e.code ++ Event.code [event] := by
  simp [code, note]

/-- An emitted instruction is the last of the code. -/
@[simp] theorem code_emit (e : Engine) (i : Instruction) : (e.emit i).code = e.code ++ [i] :=
  e.code_note (.emitted i)

/-- Emitted instructions are written in order behind the code so far. -/
@[simp] theorem code_emitAll (e : Engine) (is : List Instruction) :
    (e.emitAll is).code = e.code ++ is := by
  induction is generalizing e with
  | nil => simp [emitAll]
  | cons i is ih =>
    have h : e.emitAll (i :: is) = (e.emit i).emitAll is := rfl
    rw [h, ih, code_emit, List.append_assoc, List.singleton_append]

/-- The full name of a subroutine of the current class. -/
def qualified (e : Engine) (name : String) : String := e.className ++ "." ++ name

/-- Stops with an error. -/
def fail (e : Engine) (cause : Cause) (span : Span) : Step := ⟨e, some ⟨cause, some span⟩⟩

/-- Declares a variable. -/
def declare (e : Engine) (name type : String) (kind : SymbolKind) (span : Span) : Step :=
  match e.symbols.declare name type kind with
  | (.ok _, symbols) => ⟨{ e with symbols := symbols }, none⟩
  | (.error cause, symbols) =>
    ⟨{ e with symbols := symbols }, some (CompileError.orSpan ⟨.declaration cause, none⟩ span)⟩

/-- Starts a subroutine; a method has its object as its first argument. -/
def enterSubroutine (e : Engine) (kind : SubroutineKind) : Step :=
  let e := { e with kind := kind, symbols := e.symbols.startSubroutine }
  if kind = .method then
    match e.symbols.declare "this" e.className .argument with
    | (.ok _, symbols) => ⟨{ e with symbols := symbols }, none⟩
    | (.error cause, symbols) =>
      ⟨{ e with symbols := symbols }, some ⟨.declaration cause, none⟩⟩
  else ⟨e, none⟩

/-- The code at the head of a subroutine: a constructor makes its object, a method takes it from its
first argument. -/
def prologue (e : Engine) : SubroutineKind → List Instruction
  | .constructor =>
    [.push .constant (e.symbols.count .field), .call e.options.runtime.alloc 1, .pop .pointer 0]
  | .method => [.push .argument 0, .pop .pointer 0]
  | .function => []

/-- Produces the head of a subroutine. -/
def enterBody (e : Engine) (kind : SubroutineKind) (name : String) : Engine :=
  let locals := e.symbols.count .localVar
  let subroutine := e.qualified name
  ((e.note (.enteredBody kind subroutine locals)).emit (.function subroutine locals)).emitAll
    (e.prologue kind)

/-- Finds a variable and produces the code that makes use of it. -/
def withVariable (e : Engine) (name : String) (span : Span) (use : Symbol → List Instruction) :
    Step :=
  match e.symbols.lookup? name with
  | some symbol => ⟨e.emitAll (use symbol), none⟩
  | none => e.fail (.undeclared name e.className) span

/-- Produces an integer constant. -/
def integer (e : Engine) (value : Nat) (span : Span) : Step :=
  if value ≤ e.options.maxInteger.toNat then ⟨e.emit (.push .constant value.toUInt16), none⟩
  else e.fail (.integerTooLarge value e.options.maxInteger) span

/-- Adds the characters of a string constant one by one, up to the first that is too wide. -/
def appendChars (span : Span) (e : Engine) : List Char → Step
  | [] => ⟨e, none⟩
  | c :: cs =>
    if c.toNat < UInt16.size then
      appendChars span
        (e.emitAll [.push .constant c.toNat.toUInt16, .call e.options.runtime.stringAppend 2]) cs
    else e.fail (.wideCharacter c) span

/-- Produces a string constant: a new string, then its characters. -/
def string (e : Engine) (body : String) (span : Span) : Step :=
  let length := body.length
  if length < UInt16.size then
    appendChars span
      (e.emitAll [.push .constant length.toUInt16, .call e.options.runtime.stringNew 1])
      body.toList
  else e.fail .stringTooLong span

/-- Produces the current object. -/
def thisObject (e : Engine) (span : Span) : Engine :=
  let e := if e.kind = .function then e.note (.objectInFunction span.start e.className) else e
  e.emit (.push .pointer 0)

/-- The instruction for a binary operator. -/
def operator (e : Engine) : BinaryOp → Instruction
  | .native op => .arithmetic op
  | .multiply => .call e.options.runtime.multiply 2
  | .divide => .call e.options.runtime.divide 2

/-- What a call is made on, and the full name of what is called. A name before the dot is a variable
if it is declared, and else a class. -/
def target (e : Engine) : Callee → CallTarget × String
  | .own name => (.currentObject, e.qualified name)
  | .member owner name =>
    match e.symbols.lookup? owner with
    | some symbol =>
      (.variable symbol.kind symbol.index symbol.type, symbol.type ++ "." ++ name)
    | none => (.noObject owner, owner ++ "." ++ name)

/-- Passes the object that a call is made on. -/
def receiver (e : Engine) (callee : Callee) (span : Span) : Engine :=
  match e.target callee with
  | (.currentObject, subroutine) =>
    let e := if e.kind = .function then e.note (.noReceiver span.start subroutine) else e
    e.emit (.push .pointer 0)
  | (.variable kind index _, _) => e.emit (.push kind.segment index)
  | (.noObject _, _) => e

/-- Produces a call after its arguments. -/
def call (e : Engine) (callee : Callee) (count : Nat) (span : Span) : Step :=
  let (target, subroutine) := e.target callee
  let args := count + target.implicitArguments
  if args < UInt16.size then
    ⟨(e.note (.resolved subroutine target)).emit (.call subroutine args.toUInt16), none⟩
  else e.fail .tooManyArguments span

/-- The number of the innermost branch or loop. -/
def innermostLabel (e : Engine) : Nat := e.openLabels.headD 0

/-- Takes the next number for a branch or a loop. -/
def openLabel (e : Engine) : Engine :=
  { e with labels := e.labels + 1, openLabels := e.labels :: e.openLabels }

/-- Leaves the innermost branch or loop. -/
def closeLabel (e : Engine) : Engine := { e with openLabels := e.openLabels.tail }

/-- Where a branch goes on when its condition fails. -/
def branchFalse (n : Nat) : String := "IF_FALSE" ++ n.repr

/-- Where the two arms of a branch meet. -/
def branchEnd (n : Nat) : String := "IF_END" ++ n.repr

/-- Where a loop starts again. -/
def loopTop (n : Nat) : String := "WHILE_EXP" ++ n.repr

/-- Where a loop is left to. -/
def loopEnd (n : Nat) : String := "WHILE_END" ++ n.repr

/-- Takes a token. -/
def consume (e : Engine) (token : Token) : Engine :=
  { e with
    tokens := e.tokens.tail
    last := token.span
    tree := e.tree.map (·.addToken token) }

/-- Carries out one action. -/
def perform (e : Engine) : Action → Step
  | .consume token => ⟨e.consume token, none⟩
  | .openNode node => ⟨{ e with tree := e.tree.map (·.openNode node.tag) }, none⟩
  | .closeNode node => ⟨{ e with tree := e.tree.map (·.closeNode node.tag) }, none⟩
  | .enterClass name => ⟨{ e.note (.enteredClass name) with className := name }, none⟩
  | .declare name type kind span => e.declare name type kind span
  | .enterSubroutine kind => e.enterSubroutine kind
  | .enterBody kind name => ⟨e.enterBody kind name, none⟩
  | .missingReturn kind name span => e.fail (.missingReturn kind (e.qualified name)) span
  | .implicitReturn name =>
    ⟨(e.note (.implicitReturn (e.qualified name))).emitAll [.push .pointer 0, .ret], none⟩
  | .emit i => ⟨e.emit i, none⟩
  | .integer value span => e.integer value span
  | .string body span => e.string body span
  | .thisObject span => ⟨e.thisObject span, none⟩
  | .require name span => e.withVariable name span fun _ => []
  | .load name span => e.withVariable name span fun s => [.push s.kind.segment s.index]
  | .store name span => e.withVariable name span fun s => [.pop s.kind.segment s.index]
  | .operate op => ⟨e.emit (e.operator op), none⟩
  | .openLabels => ⟨e.openLabel, none⟩
  | .branchTest =>
    ⟨e.emitAll [.arithmetic .not, .ifGoto (branchFalse e.innermostLabel)], none⟩
  | .branchElse =>
    ⟨e.emitAll [.goto (branchEnd e.innermostLabel), .label (branchFalse e.innermostLabel)], none⟩
  | .branchEnd => ⟨(e.emit (.label (branchEnd e.innermostLabel))).closeLabel, none⟩
  | .loopTop => ⟨e.emit (.label (loopTop e.innermostLabel)), none⟩
  | .loopTest => ⟨e.emitAll [.arithmetic .not, .ifGoto (loopEnd e.innermostLabel)], none⟩
  | .loopEnd =>
    ⟨(e.emitAll [.goto (loopTop e.innermostLabel), .label (loopEnd e.innermostLabel)]).closeLabel,
      none⟩
  | .receiver callee span => ⟨e.receiver callee span, none⟩
  | .countArgument count span =>
    if count < UInt16.size then ⟨e, none⟩ else e.fail .tooManyArguments span
  | .call callee count span => e.call callee count span

/-- Carries out actions up to the first error. -/
def performAll (e : Engine) : List Action → Step
  | [] => ⟨e, none⟩
  | action :: actions =>
    match e.perform action with
    | ⟨e, none⟩ => performAll e actions
    | stopped => stopped

/-- Compiles one class from the tokens at hand: its name, or the first error. -/
def compileClass (e : Engine) : Except CompileError String × Engine :=
  let script := Script.ofTokens e.tokens e.last
  match performAll { e with openLabels := [] } script.actions with
  | ⟨e, some error⟩ => (.error error, e)
  | ⟨e, none⟩ =>
    match script.failure with
    | some expected => (.error (e.unexpected expected), e)
    | none => (.ok e.className, e)

end Engine

end Jack
