import Jack.Command.Path
import Jack.Compile.Event
import Jack.Text.Decimal

/-!
# Arguments of the command line

Arguments are read from left to right, and the first one that asks for the version or for help, or
that is wrong, decides. Options and files may be mixed; after `--` there are only files. Which
options go together is checked at the end. An argument is a list of bytes: paths may be any, but the
names of options and numbers are texts.
-/

namespace Jack.Command

open Text

/-- The log limit that a word names: a level, or `off` for no log at all. -/
def logLimitOf? (word : String) : Option (Option Level) :=
  if word.toUpper == "OFF" then some none else (Level.ofName? word).map some

/-- What is produced for each input. -/
inductive Output where
  | vm
  | tokens
  | tree
  deriving DecidableEq, Repr

/-- What the arguments ask for. -/
structure Settings where
  /-- The inputs, in the order of their arguments. -/
  files : List Path := []
  /-- The directory for the results; without one they go to the standard output. -/
  outDir : Option Path := none
  tokens : Bool := false
  tree : Bool := false
  /-- Report errors only. -/
  check : Bool := false
  /-- The limit on integer constants. -/
  maxInteger : Option UInt16 := none
  /-- How often more log lines are asked for. -/
  verbosity : Nat := 0
  deriving DecidableEq, Repr

/-- What an argument list means. -/
inductive Request where
  | handle (settings : Settings)
  | version
  /-- Show how the command is used. -/
  | help
  /-- The arguments are wrong. -/
  | misuse
  deriving DecidableEq, Repr

namespace Settings

/-- What is produced for each input. -/
def output (s : Settings) : Output :=
  if s.tokens then .tokens else if s.tree then .tree else .vm

/-- The log that the verbosity asks for. -/
def logLimit (s : Settings) : Level :=
  match s.verbosity with
  | 0 => .warn
  | 1 => .debug
  | _ => .trace

/-- At most one of the modes, and at least one file. -/
def isComplete (s : Settings) : Bool :=
  !s.files.isEmpty && !(s.tokens && s.tree) && !(s.check && (s.tokens || s.tree))

/-- The request that settings make once all arguments are read. -/
def finish (s : Settings) : Request := if s.isComplete then .handle s else .misuse

/-- Adds an input. -/
def addFile (s : Settings) (path : Path) : Option Settings :=
  if path.bytes.isEmpty then none else some { s with files := s.files ++ [path] }

/-- Adds inputs. -/
def addFiles (s : Settings) (paths : List Path) : Option Settings := paths.foldlM addFile s

/-- Sets the directory for the results, which is given once. -/
def setOutDir (s : Settings) (path : Path) : Option Settings :=
  if path.bytes.isEmpty || s.outDir.isSome then none else some { s with outDir := some path }

/-- Sets the limit on integer constants, which is given once. -/
def setMaxInteger (s : Settings) (value : List UInt8) : Option Settings :=
  if s.maxInteger.isSome then none
  else ((Utf8.decode? value).bind readSignedWord?).map fun n => { s with maxInteger := some n }

/-- Sets a mode, which is given once. -/
def setFlag (s : Settings) (name : String) : Option Settings :=
  match name with
  | "tokens" => if s.tokens then none else some { s with tokens := true }
  | "xml" => if s.tree then none else some { s with tree := true }
  | "check" => if s.check then none else some { s with check := true }
  | "verbose" => some { s with verbosity := s.verbosity + 1 }
  | _ => none

/-- Sets an option that has a value. -/
def setValue (s : Settings) (name : String) (value : List UInt8) : Option Settings :=
  match name with
  | "out-dir" => s.setOutDir ⟨value⟩
  | "max-int" => s.setMaxInteger value
  | _ => none

end Settings

/-- Does an option have a value? -/
def takesValue (name : String) : Bool := name == "out-dir" || name == "max-int"

/-- One argument. -/
inductive Arg where
  | file (path : Path)
  | endOfOptions
  /-- An option with a name, if that is a text, and perhaps with a value behind an equals sign. -/
  | long (name : Option String) (value : Option (List UInt8))
  /-- Options of one letter. -/
  | short (letters : List Char)
  deriving DecidableEq, Repr

/-- The byte that options start with. -/
@[match_pattern]
def hyphen : UInt8 := 0x2D

/-- The byte between the name of an option and its value. -/
def equals : UInt8 := 0x3D

/-- Takes an argument apart. A single hyphen is an input. -/
def Arg.of (arg : List UInt8) : Arg :=
  match arg with
  | [hyphen, hyphen] => .endOfOptions
  | hyphen :: hyphen :: rest =>
    let name := Utf8.decode? (rest.takeWhile (· != equals))
    match rest.dropWhile (· != equals) with
    | _ :: value => .long name (some value)
    | [] => .long name none
  | hyphen :: b :: bs => .short (Utf8.lossy (b :: bs)).toList
  | _ => .file ⟨arg⟩

/-- Reads options of one letter: the settings after them, or the request that decides. -/
def readLetters (s : Settings) : List Char → Except Request Settings
  | [] => .ok s
  | 'v' :: rest => readLetters { s with verbosity := s.verbosity + 1 } rest
  | 'V' :: _ => .error .version
  | 'h' :: _ => .error .help
  | _ :: _ => .error .misuse

/-- Goes on with settings, or gives up where there are none. -/
def orMisuse (s : Option Settings) (next : Settings → Request) : Request :=
  match s with
  | some s => next s
  | none => .misuse

/-- Reads arguments onto settings. -/
def readArgs (s : Settings) (args : List (List UInt8)) : Request :=
  match args with
  | [] => s.finish
  | arg :: rest =>
    match Arg.of arg with
    | .endOfOptions => orMisuse (s.addFiles (rest.map Path.mk)) Settings.finish
    | .file path => orMisuse (s.addFile path) (readArgs · rest)
    | .short letters =>
      match readLetters s letters with
      | .ok s => readArgs s rest
      | .error request => request
    | .long none _ => .misuse
    | .long (some "version") none => .version
    | .long (some "help") none => .help
    | .long (some name) (some value) => orMisuse (s.setValue name value) (readArgs · rest)
    | .long (some name) none =>
      if takesValue name then
        match rest with
        | [] => .misuse
        | value :: rest =>
          match Arg.of value with
          | .file _ => orMisuse (s.setValue name value) (readArgs · rest)
          | _ => .misuse
      else orMisuse (s.setFlag name) (readArgs · rest)

/-- What an argument list means. -/
def Request.of (args : List (List UInt8)) : Request := readArgs {} args

end Jack.Command
