import Jack.Command.Args
import Jack.Command.Host
import Jack.Compile

/-!
# Running the command

Each input is read and worked on by itself, in any order; an outcome carries the number of its
input, and the outcomes are delivered in the order of the inputs once all of them are there. An
input that fails leaves the results of the others alone and makes the command fail.
-/

namespace Jack.Command

open Text

/-- What became of one input. -/
structure Outcome where
  path : Path
  /-- The result, or the report of what is wrong. -/
  result : Except String String
  /-- The lines that are logged about it. -/
  log : List LogLine

/-- The lines of a log that are kept up to a level. -/
def kept (limit : Option Level) (lines : List LogLine) : List LogLine :=
  lines.filter (·.level.within limit)

/-- The name of the file that holds a result. -/
def Output.fileName (output : Output) (stem : String) : String :=
  match output with
  | .vm => stem ++ ".vm"
  | .tokens => stem ++ "T.xml"
  | .tree => stem ++ ".xml"

/-- The options of the compilations. -/
def Settings.options (s : Settings) : Options :=
  match s.maxInteger with
  | some n => { maxInteger := n }
  | none => {}

/-- The result of a compilation, its log, and its report if it failed. -/
def compiled (limit : Option Level) (path : Path) (source : String) (c : Compilation)
    (result : Engine → String) : Outcome :=
  let log := Event.log limit c.engine.events.toList
  match c.result with
  | .ok _ => ⟨path, .ok (result c.engine), log⟩
  | .error e =>
    ⟨path, .error (e.report source),
      log ++ kept limit [⟨.debug, path.display ++ " failed: " ++ e.text⟩]⟩

/-- The outcome for one source. -/
def produce (s : Settings) (limit : Option Level) (path : Path) (source : String) : Outcome :=
  match s.output with
  | .tokens =>
    match tokenListing (tokensOf source) with
    | .ok text => ⟨path, .ok text, []⟩
    | .error e => ⟨path, .error e.text, []⟩
  | .tree =>
    compiled limit path source (compileRecorded s.options source) fun e => e.takeTree.1.getD ""
  | .vm =>
    compiled limit path source (compileSource s.options source) fun e =>
      Vm.Instruction.listing e.code

/-- What becomes of an input whose file has been read. -/
def outcome (s : Settings) (limit : Option Level) (path : Path)
    (contents : Except FileError (List UInt8)) : Outcome :=
  let unreadable (e : FileError) : Outcome :=
    ⟨path, .error ("cannot read file: " ++ e.message), []⟩
  match contents with
  | .error e => unreadable e
  | .ok bytes =>
    match Utf8.decode? bytes with
    | none => unreadable .notText
    | some source => produce s limit path source

/-- Numbered outcomes in the order of their numbers. -/
def inOrder (arrivals : List (Nat × Outcome)) : List Outcome :=
  (arrivals.mergeSort fun a b => a.1 ≤ b.1).map Prod.snd

/-- The comment that stands before a printed program. -/
def header (path : Path) : String := "// " ++ path.display ++ "\n"

/-- The file for the result of an input. -/
def target (s : Settings) (dir path : Path) : Path := dir.join (s.output.fileName path.shownStem)

section

variable {m : Type → Type} [Monad m] [Host m]

/-- Puts lines into the log. -/
def logAll (lines : List LogLine) : m Unit := lines.forM fun l => Host.say (.log l)

/-- Writes a result into the directory for the results, or prints it. -/
def emit (s : Settings) (limit : Option Level) (path : Path) (text : String) :
    ExceptT FileError m Unit :=
  match s.outDir with
  | some dir => do
    Host.makeDirs dir
    Host.write (target s dir path) (Utf8.bytes text)
    ExceptT.lift (logAll (kept limit [⟨.info, "wrote " ++ (target s dir path).display⟩]))
  | none => do
    if s.output = .vm then
      Host.print (header path)
    Host.print text

/-- Delivers one outcome and tells whether something fails: errors are reported, and results are
written or printed. -/
def deliver (s : Settings) (limit : Option Level) (o : Outcome) : m Bool :=
  match o.result with
  | .error message => do
    Host.say (.message (o.path.display ++ ": " ++ message))
    return true
  | .ok text =>
    if s.check then do
      logAll (kept limit [⟨.info, o.path.display ++ ": ok"⟩])
      return false
    else do
      match ← (emit s limit o.path text).run with
      | .ok () => return false
      | .error e =>
        Host.say (.message ("Error writing output for '" ++ o.path.display ++ "': " ++ e.message))
        return true

/-- Delivers outcomes one after another and tells whether something fails. -/
def deliverAll (s : Settings) (limit : Option Level) (outcomes : List Outcome) : m Bool :=
  outcomes.foldlM
    (fun failed o => do
      let lost ← deliver s limit o
      return failed || lost)
    false

/-- Reads an input, works on it and logs the lines about it. -/
def work (s : Settings) (limit : Option Level) (path : Path) : m Outcome := do
  let o := outcome s limit path (← (Host.read path).run)
  logAll o.log
  return o

/-- Handles all inputs: works on each of them, then delivers the outcomes. Tells whether something
fails. -/
def handle (s : Settings) (limit : Option Level) : m Bool := do
  let arrivals ← s.files.zipIdx.mapM fun (path, number) => do
    return (number, ← work s limit path)
  deliverAll s limit (inOrder arrivals)

/-- The exit status of a run in which something has failed or not. -/
def exitStatus (failed : Bool) : Nat := if failed then 1 else 0

/-- The name and the version of the command. -/
def versionText : String := "jackc 0.1.0\n"

/-- How the command is used. -/
def helpText : String :=
  "Usage: jackc [OPTIONS] <FILES>...\n\n" ++
  "Arguments:\n" ++
  "  <FILES>...  The .jack files to compile\n\n" ++
  "Options:\n" ++
  "      --out-dir <OUT_DIR>  Output directory (default: print to stdout)\n" ++
  "      --tokens             Dump the token listing for inputs\n" ++
  "      --xml                Dump the parse tree for inputs\n" ++
  "      --check              Only report errors\n" ++
  "      --max-int <N>        Integer constant limit\n" ++
  "  -v, --verbose...         More log output; repeat for more detail\n" ++
  "  -h, --help               Print help\n" ++
  "  -V, --version            Print version\n"

/-- Runs the command on its arguments and gives the exit status; there is none if they are wrong. A
log limit from outside stands above the one that the arguments ask for. -/
def run (args : List (List UInt8)) (outside : Option (Option Level)) : m (Option Nat) := do
  match Request.of args with
  | .misuse => return none
  | .version =>
    let _ ← (Host.print versionText).run
    return some 0
  | .help =>
    let _ ← (Host.print helpText).run
    return some 0
  | .handle s =>
    let failed ← handle s (outside.getD (some s.logLimit))
    return some (exitStatus failed)

end

end Jack.Command
