import Jack.Command.Path

/-!
# Files

A file tree as a value, with the operations that the command carries out on it. The parts of a path
lead from directory to directory, and only the last one may name something that does not exist.
Names and paths have a limited number of bytes.
-/

namespace Jack.Command

/-- Why a file operation fails. -/
inductive FileError where
  | notFound
  | alreadyExists
  /-- The path leads through something that is no directory. -/
  | notDirectory
  /-- There is a directory at the path. -/
  | isDirectory
  /-- A name in the path, or the path itself, is too long. -/
  | nameTooLong
  /-- The file does not hold a text. -/
  | notText
  /-- Any other reason, in the words of the system. -/
  | other (message : String)
  deriving DecidableEq, Repr

/-- The wording of a file error. -/
def FileError.message : FileError → String
  | .notFound => "No such file or directory (os error 2)"
  | .alreadyExists => "File exists (os error 17)"
  | .notDirectory => "Not a directory (os error 20)"
  | .isDirectory => "Is a directory (os error 21)"
  | .nameTooLong => "File name too long (os error 36)"
  | .notText => "stream did not contain valid UTF-8"
  | .other message => message

/-- The most bytes that a name in a path has. -/
def maxNameBytes : Nat := 255

/-- The most bytes that a path has. -/
def maxPathBytes : Nat := 4095

/-- A path must not be too long, wherever it leads. -/
def checkPath (path : Path) : Except FileError Unit :=
  if path.bytes.length ≤ maxPathBytes then .ok () else .error .nameTooLong

/-- What stands at a place in a file tree. -/
inductive Entry where
  | file (bytes : List UInt8)
  | dir
  deriving DecidableEq, Repr

/-- A place in a file tree: the names that lead to it from the working directory. They start with
`Name.up` above that directory and with the empty name at the root. -/
abbrev Place := List Name

/-- A file tree around a working directory. -/
structure FileTree where
  /-- The places with what stands there, the directories that always exist left out. -/
  entries : List (Place × Entry) := []
  deriving DecidableEq, Repr

namespace FileTree

/-- Is a place the working directory, or one above it? -/
def isAbove (place : Place) : Bool := place.all (· == .up)

/-- Is a place a directory that always exists? -/
def isFixed (place : Place) : Bool := isAbove place || place == [[]]

/-- The place one level up; the root is above itself. -/
def parentPlace (place : Place) : Place :=
  if place == [[]] then place
  else if isAbove place then place ++ [.up]
  else place.dropLast

/-- What stands at a place. -/
def entry? (t : FileTree) (place : Place) : Option Entry :=
  if isFixed place then some .dir else (t.entries.find? (·.1 == place)).map Prod.snd

/-- Puts something at a place. -/
def put (t : FileTree) (place : Place) (entry : Entry) : FileTree :=
  if t.entries.any (·.1 == place) then
    ⟨t.entries.map fun e => if e.1 == place then (place, entry) else e⟩
  else ⟨t.entries ++ [(place, entry)]⟩

/-- Follows parts from a place, which must be a directory as long as parts are left. A name is only
looked up in a directory, so that a name that is too long matters no sooner. -/
def follow (t : FileTree) (here : Place) : List Name → Except FileError Place
  | [] => .ok here
  | part :: parts =>
    match t.entry? here with
    | none => .error .notFound
    | some (.file _) => .error .notDirectory
    | some .dir =>
      if Path.isIdle part then follow t here parts
      else if part == .up then follow t (parentPlace here) parts
      else if part.length ≤ maxNameBytes then follow t (here ++ [part]) parts
      else .error .nameTooLong

/-- The place of a path. -/
def locate (t : FileTree) (parts : List Name) : Except FileError Place :=
  if parts.head? == some [] then t.follow [[]] parts else t.follow [] parts

/-- The contents of a file. -/
def read (t : FileTree) (path : Path) : Except FileError (List UInt8) := do
  checkPath path
  let place ← t.locate path.parts
  match t.entry? place with
  | none => throw .notFound
  | some .dir => throw .isDirectory
  | some (.file bytes) => return bytes

/-- Does a path lead to a directory? -/
def isDir (t : FileTree) (parts : List Name) : Bool :=
  match t.locate parts with
  | .ok place => t.entry? place == some .dir
  | .error _ => false

/-- Makes one directory. -/
def makeDir (t : FileTree) (parts : List Name) : Except FileError FileTree := do
  let place ← t.locate parts
  match t.entry? place with
  | some _ => throw .alreadyExists
  | none => return t.put place .dir

/-- Makes the first of some directories, each of which lies in the next one. -/
def makeFirst (t : FileTree) : List (List Name) → Except FileError Unit × FileTree
  | [] => (.ok (), t)
  | parts :: above =>
    match t.makeDir parts with
    | .ok t => (.ok (), t)
    | .error .notFound =>
      match makeFirst t above with
      | (.error e, t) => (.error e, t)
      | (.ok (), t) =>
        match t.makeDir parts with
        | .ok t => (.ok (), t)
        | .error e => (if t.isDir parts then .ok () else .error e, t)
    | .error e => (if t.isDir parts then .ok () else .error e, t)

/-- The directories above a path, the innermost first. -/
def above (path : Path) : List (List Name) :=
  let components := path.components
  (List.range' 1 (components.length - 1)).reverse.map components.take

/-- A path without the slashes at its end. -/
def dropSlashes (parts : List Name) : List Name :=
  match parts with
  | [] => []
  | first :: rest => first :: (rest.reverse.dropWhile (· == [])).reverse

/-- Makes a directory and those above it, unless they exist. -/
def makeDirs (t : FileTree) (path : Path) : Except FileError Unit × FileTree :=
  match checkPath path with
  | .error e => (.error e, t)
  | .ok () => t.makeFirst (dropSlashes path.parts :: above path)

/-- Replaces the contents of a file, or makes it. -/
def write (t : FileTree) (path : Path) (bytes : List UInt8) : Except FileError Unit × FileTree :=
  match checkPath path *> t.locate path.parts with
  | .error e => (.error e, t)
  | .ok place =>
    match t.entry? place with
    | some .dir => (.error .isDirectory, t)
    | _ => (.ok (), t.put place (.file bytes))

end FileTree

end Jack.Command
