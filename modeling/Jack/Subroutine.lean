import Jack.Token.Keyword

/-!
# Kinds of subroutines
-/

namespace Jack

/-- The kind of a subroutine. -/
inductive SubroutineKind where
  /-- Makes and returns a new object. -/
  | constructor
  /-- Belongs to no object. -/
  | function
  /-- Works on an object that it gets as its first argument. -/
  | method
  deriving DecidableEq, Repr

namespace SubroutineKind

/-- The word for a kind. -/
def name : SubroutineKind → String
  | .constructor => "constructor"
  | .function => "function"
  | .method => "method"

/-- The kind of the declarations that a reserved word starts. -/
def ofKeyword? : Keyword → Option SubroutineKind
  | .constructorKw => some .constructor
  | .functionKw => some .function
  | .methodKw => some .method
  | _ => none

end SubroutineKind

end Jack
