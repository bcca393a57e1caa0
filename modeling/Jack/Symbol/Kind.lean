import Jack.Vm.Segment

/-!
# Kinds of variables

Where a declared variable lives. Statics and fields belong to the class, arguments and locals to the
subroutine.
-/

namespace Jack

/-- The kind of a declared variable. -/
inductive SymbolKind where
  /-- Shared by all objects of a class. -/
  | static
  /-- Held by each object. -/
  | field
  /-- Passed to a subroutine. -/
  | argument
  /-- Declared inside a subroutine. -/
  | localVar
  deriving DecidableEq, Repr

namespace SymbolKind

/-- The four kinds. -/
def all : List SymbolKind := [.static, .field, .argument, .localVar]

/-- The word for a kind. -/
def name : SymbolKind → String
  | .static => "static"
  | .field => "field"
  | .argument => "argument"
  | .localVar => "local"

/-- The segment that holds variables of a kind. -/
def segment : SymbolKind → Vm.Segment
  | .static => .static
  | .field => .thisField
  | .argument => .argument
  | .localVar => .localVar

/-- Does a kind belong to the class, and not to the subroutine? -/
def isClassLevel : SymbolKind → Bool
  | .static | .field => true
  | .argument | .localVar => false

/-- The place of a kind's counter in its scope; a scope has two of them, one for each kind that it
holds. -/
def slot : SymbolKind → Fin 2
  | .static | .argument => 0
  | .field | .localVar => 1

/-- Within a scope, kinds have counters of their own. -/
theorem slot_inj {k l : SymbolKind} (h : k.isClassLevel = l.isClassLevel) :
    k.slot = l.slot ↔ k = l := by
  cases k <;> cases l <;> first | decide | cases h

end SymbolKind

end Jack
