import Jack.Text.Pieces
import Jack.Text.Utf8

/-!
# Paths

A path is any list of bytes, cut at its slashes; it need not be a text. Where it is shown, or a file
is named after its stem, U+FFFD stands for each part of it that is no UTF-8.
-/

namespace Jack.Command

open Text

/-- A name in a path: the bytes between two slashes. -/
abbrev Name := List UInt8

/-- The byte that separates the names in a path. -/
def slash : UInt8 := 0x2F

/-- The byte that separates the stem of a name from its extension. -/
def dot : UInt8 := 0x2E

/-- The name of a directory in itself. -/
def Name.here : Name := [dot]

/-- The name of the directory above. -/
def Name.up : Name := [dot, dot]

/-- A name without its extension; a dot in front starts no extension. -/
def Name.stem (name : Name) : Name :=
  let extension := name.reverse.takeWhile (· != dot)
  match name.reverse.drop extension.length with
  | _ :: stem => if stem.isEmpty then name else stem.reverse
  | [] => name

/-- A path, as the system takes it. -/
structure Path where
  bytes : List UInt8
  deriving DecidableEq, Repr

namespace Path

/-- The path that a text writes. -/
def of (text : String) : Path := ⟨Utf8.bytes text⟩

/-- A path as it is shown. -/
def display (path : Path) : String := Utf8.lossy path.bytes

/-- The parts of a path between its slashes. -/
def parts (path : Path) : List Name := pieces (· == slash) path.bytes

/-- Does a part of a path lead nowhere else? -/
def isIdle (part : Name) : Bool := part == [] || part == .here

/-- The parts of a path that lead somewhere: the root and a dot only in front. -/
def components (path : Path) : List Name :=
  match path.parts with
  | [] => []
  | first :: rest => first :: rest.filter (!isIdle ·)

/-- The last part of a path, if it is a name. -/
def fileName? (path : Path) : Option Name :=
  match path.components.getLast? with
  | some name => if name == .up || isIdle name then none else some name
  | none => none

/-- The stem of the last part of a path, or all of a path that ends without a name. -/
def stem (path : Path) : Name :=
  match path.fileName? with
  | some name => name.stem
  | none => path.bytes

/-- The stem as the text that the results for an input are named after. -/
def shownStem (path : Path) : String := Utf8.lossy path.stem

/-- The path of a name below a directory. -/
def join (dir : Path) (name : String) : Path :=
  if dir.bytes.getLast? == some slash then ⟨dir.bytes ++ Utf8.bytes name⟩
  else ⟨dir.bytes ++ slash :: Utf8.bytes name⟩

end Path

end Jack.Command
