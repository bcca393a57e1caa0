/-!
# Compiler options

The limit on integer constants and the names of the library routines that compiled code calls.
-/

namespace Jack

/-- The library routines that compiled code relies on. -/
structure Runtime where
  /-- Gives the address of a new block of words; called by constructors. -/
  alloc : String := "Memory.alloc"
  multiply : String := "Math.multiply"
  /-- Divides one word by another. -/
  divide : String := "Math.divide"
  /-- Makes a string with room for a number of characters. -/
  stringNew : String := "String.new"
  /-- Adds one character to a string. -/
  stringAppend : String := "String.appendChar"
  deriving DecidableEq, Repr

/-- The options of a compilation. -/
structure Options where
  /-- The largest integer constant that is accepted. -/
  maxInteger : UInt16 := 32767
  runtime : Runtime := {}
  deriving DecidableEq, Repr

end Jack
