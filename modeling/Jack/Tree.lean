import Jack.Token.Listing

/-!
# Parse trees

A parse tree is recorded line by line while it grows: nodes are opened and closed, tokens are added
to the innermost open node. The text indents each line by two spaces for every node around it.
-/

namespace Jack

/-- One line of a recorded tree. -/
inductive TreeLine where
  | opened (tag : String)
  | closed (tag : String)
  | leaf (element : Element)
  deriving DecidableEq, Repr

/-- The line without its indentation and its end. -/
def TreeLine.text : TreeLine → String
  | .opened tag => "<" ++ tag ++ ">"
  | .closed tag => "</" ++ tag ++ ">"
  | .leaf element => element.text

/-- A tree as far as it is recorded. -/
structure Tree where
  /-- The lines so far, each with the number of nodes around it. -/
  lines : Array (Nat × TreeLine) := #[]
  depth : Nat := 0
  deriving Repr

namespace Tree

/-- The tree with nothing in it. -/
def empty : Tree := {}

/-- Starts a node. -/
def openNode (t : Tree) (tag : String) : Tree :=
  ⟨t.lines.push (t.depth, .opened tag), t.depth + 1⟩

/-- Ends a node; at depth zero the line stands there without indentation. -/
def closeNode (t : Tree) (tag : String) : Tree :=
  ⟨t.lines.push (t.depth - 1, .closed tag), t.depth - 1⟩

/-- Adds a token; the end of the input and errors leave no line. -/
def addToken (t : Tree) (token : Token) : Tree :=
  match token.kind.element? with
  | some e => { t with lines := t.lines.push (t.depth, .leaf e) }
  | none => t

/-- Adds `n` levels of indentation. -/
def indentOnto (out : String) : Nat → String
  | 0 => out
  | n + 1 => indentOnto (out ++ "  ") n

/-- The text of the lines so far. -/
def text (t : Tree) : String :=
  t.lines.foldl (fun out (depth, line) => indentOnto out depth ++ line.text ++ "\n") ""

end Tree

end Jack
