import Std.Data.TreeMap
import Jack.Symbol.Kind

/-!
# The symbol table

Two scopes, one for the class and one for the subroutine being compiled. Within a scope a name is
declared once, and the variables of each kind are numbered from zero in the order of their
declarations. A name is looked up in the subroutine's scope first, so that an argument or a local
hides a static or a field of the same name.
-/

namespace Jack

/-- A declared variable. -/
structure Symbol where
  type : String
  kind : SymbolKind
  /-- Its number among the variables of its kind. -/
  index : UInt16
  deriving DecidableEq, Repr

/-- Why a declaration is refused. -/
inductive DeclareError where
  /-- The scope has the name already. -/
  | duplicate (name : String) (earlier : Symbol)
  /-- All numbers of the kind are taken. -/
  | tooMany (name : String) (kind : SymbolKind)
  deriving DecidableEq, Repr

/-- The wording of a refused declaration. -/
def DeclareError.message : DeclareError → String
  | .duplicate name earlier =>
    "`" ++ name ++ "` is already declared as " ++ earlier.kind.name ++ " " ++
      earlier.index.toNat.repr
  | .tooMany name kind => "too many " ++ kind.name ++ " variables to declare `" ++ name ++ "`"

/-- The number after another one, if it has 16 bits. -/
def next? (n : UInt16) : Option UInt16 := if n.toNat + 1 < UInt16.size then some (n + 1) else none

/-- One scope: the variables by name, and how many there are of each kind. -/
structure Scope where
  symbols : Std.TreeMap String Symbol := {}
  /-- How many there are of the kind that has this place. -/
  counts : Vector UInt16 2 := .replicate 2 0

namespace Scope

/-- How many variables of a kind there are. -/
def count (s : Scope) (kind : SymbolKind) : UInt16 := s.counts[kind.slot]

/-- Declares a name: its number, or why it is refused, and the scope after that. -/
def declare (s : Scope) (name type : String) (kind : SymbolKind) :
    Except DeclareError UInt16 × Scope :=
  match s.symbols[name]? with
  | some earlier => (.error (.duplicate name earlier), s)
  | none =>
    let index := s.count kind
    match next? index with
    | none => (.error (.tooMany name kind), s)
    | some next =>
      (.ok index,
        ⟨s.symbols.insert name ⟨type, kind, index⟩, s.counts.set kind.slot next⟩)

end Scope

/-- The symbol table. -/
structure SymbolTable where
  /-- Statics and fields. -/
  classScope : Scope := {}
  /-- Arguments and locals. -/
  subroutineScope : Scope := {}

namespace SymbolTable

/-- The table without any name. -/
def empty : SymbolTable := {}

/-- Forgets all arguments and locals. -/
def startSubroutine (t : SymbolTable) : SymbolTable := { t with subroutineScope := {} }

/-- Declares a name in the scope of its kind: its number, or why it is refused, and the table after
that. -/
def declare (t : SymbolTable) (name type : String) (kind : SymbolKind) :
    Except DeclareError UInt16 × SymbolTable :=
  if kind.isClassLevel then
    let out := t.classScope.declare name type kind
    (out.1, { t with classScope := out.2 })
  else
    let out := t.subroutineScope.declare name type kind
    (out.1, { t with subroutineScope := out.2 })

/-- The variable that a name means. -/
def lookup? (t : SymbolTable) (name : String) : Option Symbol :=
  t.subroutineScope.symbols[name]? <|> t.classScope.symbols[name]?

/-- The kind of the variable that a name means. -/
def kindOf? (t : SymbolTable) (name : String) : Option SymbolKind := (t.lookup? name).map (·.kind)

/-- The type of the variable that a name means. -/
def typeOf? (t : SymbolTable) (name : String) : Option String := (t.lookup? name).map (·.type)

/-- The number of the variable that a name means. -/
def indexOf? (t : SymbolTable) (name : String) : Option UInt16 := (t.lookup? name).map (·.index)

/-- The number of variables of a kind. -/
def count (t : SymbolTable) (kind : SymbolKind) : UInt16 :=
  if kind.isClassLevel then t.classScope.count kind else t.subroutineScope.count kind

/-- What is done to a table. -/
inductive Operation where
  | declare (name type : String) (kind : SymbolKind)
  | startSubroutine
  deriving DecidableEq, Repr

/-- The table after an operation. -/
def apply (t : SymbolTable) : Operation → SymbolTable
  | .declare name type kind => (t.declare name type kind).2
  | .startSubroutine => t.startSubroutine

end SymbolTable

end Jack
