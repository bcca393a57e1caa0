import Jack.Command.Run

/-!
# The command

The command on the real file system and the real outputs. The environment variable `RUST_LOG` can
name the limit of the log.
-/

namespace Jack.Command

/-- The reason of a failed operation. -/
def fileErrorOf (e : IO.Error) : FileError :=
  match e with
  | .noFileOrDirectory _ _ _ => .notFound
  | .noSuchThing _ _ _ => .notFound
  | .alreadyExists _ 17 _ => .alreadyExists
  | .inappropriateType _ 20 _ => .notDirectory
  | .inappropriateType _ 21 _ => .isDirectory
  | .invalidArgument _ 36 _ => .nameTooLong
  | e => .other (toString e)

/-- Carries out an operation and keeps its reason if it fails. -/
def attempt {α : Type} (act : IO α) : ExceptT FileError IO α := ExceptT.mk do
  try
    return .ok (← act)
  catch e =>
    return .error (fileErrorOf e)

/-- Carries out an operation on a path; the library takes only paths that are texts. -/
def attemptAt {α : Type} (path : Path) (act : String → IO α) : ExceptT FileError IO α :=
  match Text.Utf8.decode? path.bytes with
  | some text => attempt (act text)
  | none => ExceptT.mk (return .error (.other "path is not valid UTF-8"))

instance : Host IO where
  read path := attemptAt path fun text => return (← IO.FS.readBinFile text).toList
  makeDirs path := attemptAt path fun text => IO.FS.createDirAll text
  write path bytes := attemptAt path fun text => IO.FS.writeBinFile text ⟨bytes.toArray⟩
  print text := attempt do
    let stdout ← IO.getStdout
    stdout.putStr text
    stdout.flush
  say notice := IO.eprint (notice.text fun line => line.text ++ "\n")

end Jack.Command

open Jack Jack.Command in
/-- Runs the command. -/
def main (args : List String) : IO UInt32 := do
  let outside := (← IO.getEnv "RUST_LOG").bind logLimitOf?
  match ← (run (args.map Text.Utf8.bytes) outside : IO (Option Nat)) with
  | some status => return status.toUInt32
  | none =>
    IO.eprint helpText
    return 2
