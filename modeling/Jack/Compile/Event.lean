import Jack.Source.Span
import Jack.Subroutine
import Jack.Symbol.Kind
import Jack.Text.Quoted
import Jack.Vm.Instruction

/-!
# Events

What happens during a compilation, in order: the instructions produced, and what is worth a line in
the log. The code is the instructions among the events, and the log is the text of the events up to
a level.
-/

namespace Jack

/-- How important a line of the log is, most important first. -/
inductive Level where
  | error | warn | info | debug | trace
  deriving DecidableEq, Repr

namespace Level

/-- The place of a level, from the most important on. -/
def rank : Level → Nat
  | .error => 0
  | .warn => 1
  | .info => 2
  | .debug => 3
  | .trace => 4

/-- The name of a level. -/
def name : Level → String
  | .error => "ERROR"
  | .warn => "WARN"
  | .info => "INFO"
  | .debug => "DEBUG"
  | .trace => "TRACE"

/-- Every level. -/
def all : List Level := [.error, .warn, .info, .debug, .trace]

/-- The level with a name, in small or in capital letters. -/
def ofName? (word : String) : Option Level :=
  all.find? (·.name == word.toUpper)

/-- Does a log that is kept up to `most` have lines of this level? No log is kept without one. -/
def within (level : Level) (most : Option Level) : Bool :=
  match most with
  | some most => level.rank ≤ most.rank
  | none => false

end Level

/-- One line of a log. -/
structure LogLine where
  level : Level
  message : String
  deriving DecidableEq, Repr

/-- The level and the message. -/
def LogLine.text (l : LogLine) : String := l.level.name ++ " " ++ l.message

/-- What a call is made on. -/
inductive CallTarget where
  | currentObject
  /-- The object in a variable. -/
  | variable (kind : SymbolKind) (index : UInt16) (type : String)
  /-- No object. -/
  | noObject (className : String)
  deriving DecidableEq, Repr

namespace CallTarget

/-- The number of arguments passed besides the written ones. -/
def implicitArguments : CallTarget → Nat
  | .currentObject | .variable _ _ _ => 1
  | .noObject _ => 0

/-- The name of the segment of a variable, as the log writes it. -/
def segmentText : SymbolKind → String
  | .static => "Static"
  | .field => "This"
  | .argument => "Argument"
  | .localVar => "Local"

/-- A target as the log writes it. -/
def text : CallTarget → String
  | .currentObject => "UnqualifiedThis"
  | .variable kind index type =>
    "QualifiedVariable \x7b segment: " ++ segmentText kind ++ ", index: " ++ index.toNat.repr ++
      ", class: " ++ Text.quoted type ++ " \x7d"
  | .noObject className => "QualifiedClass \x7b class: " ++ Text.quoted className ++ " \x7d"

end CallTarget

/-- One thing that happened. -/
inductive Event where
  | enteredClass (name : String)
  /-- The body of a subroutine has started. -/
  | enteredBody (kind : SubroutineKind) (subroutine : String) (locals : UInt16)
  /-- A constructor returns its object without a statement that says so. -/
  | implicitReturn (subroutine : String)
  /-- The current object is used where there is none. -/
  | objectInFunction (pos : Pos) (className : String)
  /-- A method is called on the current object where there is none. -/
  | noReceiver (pos : Pos) (subroutine : String)
  /-- The target of a call is settled. -/
  | resolved (subroutine : String) (target : CallTarget)
  | emitted (i : Vm.Instruction)
  deriving DecidableEq, Repr

namespace Event

/-- The instruction that an event produces. -/
def instruction? : Event → Option Vm.Instruction
  | .emitted i => some i
  | _ => none

/-- The level of an event in the log. -/
def level : Event → Level
  | .enteredClass _ | .enteredBody _ _ _ | .implicitReturn _ => .debug
  | .objectInFunction _ _ | .noReceiver _ _ => .warn
  | .resolved _ _ | .emitted _ => .trace

/-- The line of an event in the log. -/
def message : Event → String
  | .enteredClass name => "compiling class " ++ name
  | .enteredBody kind subroutine locals =>
    "compiling " ++ kind.name ++ " " ++ subroutine ++ " (" ++ locals.toNat.repr ++ " locals)"
  | .implicitReturn subroutine => "implicit `return this` for " ++ subroutine
  | .objectInFunction pos className =>
    pos.text ++ ": `this` used inside function of `" ++ className ++ "`"
  | .noReceiver pos subroutine =>
    pos.text ++ ": `" ++ subroutine ++ "` called without receiver inside a function"
  | .resolved subroutine target => "call " ++ subroutine ++ " resolved as " ++ target.text
  | .emitted i => "emit " ++ i.text

/-- The line of an event in a log that is kept up to a level. -/
def logLine? (most : Option Level) (e : Event) : Option LogLine :=
  if e.level.within most then some ⟨e.level, e.message⟩ else none

/-- The code that a list of events produces. -/
def code (events : List Event) : List Vm.Instruction := events.filterMap instruction?

/-- The log of a list of events, up to a level. -/
def log (most : Option Level) (events : List Event) : List LogLine :=
  events.filterMap (logLine? most)

/-- The code of one stretch of events stands before that of the next. -/
@[simp] theorem code_append (as bs : List Event) : code (as ++ bs) = code as ++ code bs :=
  List.filterMap_append

end Event

end Jack
