import Jack.Command.Files
import Jack.Compile.Event

/-!
# What the command works on

The command works on files and on two outputs. Results go to the standard output, which may fail to
take them; messages about failures and the log go to the error output, in the order in which they
come. How a line of the log is formatted is left open.

All of this is given by the operations of a `Host`. A `World` holds it as a value.
-/

namespace Jack.Command

/-- Something on the error output. -/
inductive Notice where
  /-- A message about a failure. -/
  | message (text : String)
  /-- A line of the log. -/
  | log (line : LogLine)
  deriving DecidableEq, Repr

/-- The text of a notice, for a format of the lines of the log. -/
def Notice.text (format : LogLine → String) : Notice → String
  | .message text => text ++ "\n"
  | .log line => format line

/-- The operations that the command relies on. -/
class Host (m : Type → Type) where
  /-- The bytes of a file. -/
  read : Path → ExceptT FileError m (List UInt8)
  /-- Makes a directory and those above it, unless they exist. -/
  makeDirs : Path → ExceptT FileError m Unit
  /-- Replaces the contents of a file, or makes it. -/
  write : Path → List UInt8 → ExceptT FileError m Unit
  /-- Puts a text on the standard output. -/
  print : String → ExceptT FileError m Unit
  /-- Puts something on the error output. -/
  say : Notice → m Unit

/-- A standard output, which takes texts or fails to take them. -/
class Sink (σ : Type) where
  put : σ → String → Except FileError Unit × σ

/-- A string takes every text. -/
instance : Sink String where
  put out text := (.ok (), out ++ text)

/-- A file tree and the two outputs. -/
structure World (σ : Type) where
  tree : FileTree
  stdout : σ
  /-- What is on the error output. -/
  notices : Array Notice := #[]
  deriving Repr

instance {σ : Type} [Sink σ] : Host (StateM (World σ)) where
  read path := fun w => (w.tree.read path, w)
  makeDirs path := fun w =>
    let (made, tree) := w.tree.makeDirs path
    (made, { w with tree := tree })
  write path bytes := fun w =>
    let (written, tree) := w.tree.write path bytes
    (written, { w with tree := tree })
  print text := fun w =>
    let (taken, stdout) := Sink.put w.stdout text
    (taken, { w with stdout := stdout })
  say notice := fun w => ((), { w with notices := w.notices.push notice })

end Jack.Command
