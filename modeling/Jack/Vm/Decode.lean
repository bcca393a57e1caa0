import Jack.Text.Blank
import Jack.Text.Decimal
import Jack.Text.Lines
import Jack.Vm.Instruction

/-!
# Reading program text

Each line holds at most one instruction; a comment starts at `//`, and lines that are blank without
their comment are skipped. A faulty line is reported with its number and does not end the reading.
-/

namespace Jack.Vm

/-- Why a line is no instruction. -/
inductive DecodeCause where
  /-- Constants cannot be written. -/
  | popConstant
  /-- A line of one word that is no command. -/
  | unknownCommand (word : String)
  /-- A line whose words do not fit any command. -/
  | malformed (line : String)
  /-- A word where a segment should stand. -/
  | unknownSegment (word : String)
  /-- A word where a 16-bit number should stand. -/
  | invalidNumber (word : String)
  deriving DecidableEq, Repr

/-- The wording of a cause. -/
def DecodeCause.message : DecodeCause → String
  | .popConstant => "cannot pop into constant"
  | .unknownCommand word => "unknown command `" ++ word ++ "`"
  | .malformed line => "malformed command `" ++ line ++ "`"
  | .unknownSegment word => "unknown segment `" ++ word ++ "`"
  | .invalidNumber word => "invalid number `" ++ word ++ "`"

/-- A faulty line, numbered from one. -/
structure DecodeError where
  line : Nat
  cause : DecodeCause
  deriving DecidableEq, Repr

/-- The error as one line of text. -/
def DecodeError.text (e : DecodeError) : String :=
  "line " ++ e.line.repr ++ ": " ++ e.cause.message

/-- The segment that a word writes. -/
def readSegment (word : String) : Except DecodeCause Segment :=
  match Segment.ofName? word with
  | some segment => .ok segment
  | none => .error (.unknownSegment word)

/-- The number that a word writes. -/
def readNumber (word : String) : Except DecodeCause UInt16 :=
  match Text.readWord? word with
  | some n => .ok n
  | none => .error (.invalidNumber word)

namespace Instruction

/-- The instruction that a line's words write; `line` is the line itself, for the report. -/
def ofWords (line : String) : List String → Except DecodeCause Instruction
  | ["push", segment, index] => do
    let s ← readSegment segment
    let i ← readNumber index
    return .push s i
  | ["pop", segment, index] => do
    let s ← readSegment segment
    if s = .constant then
      throw .popConstant
    let i ← readNumber index
    return .pop s i
  | ["label", name] => return .label name
  | ["goto", name] => return .goto name
  | ["if-goto", name] => return .ifGoto name
  | ["function", name, locals] => return .function name (← readNumber locals)
  | ["call", name, args] => return .call name (← readNumber args)
  | ["return"] => return .ret
  | [word] =>
    match Op.ofMnemonic? word with
    | some op => return .arithmetic op
    | none => throw (.unknownCommand word)
  | _ => throw (.malformed line)

/-- The part of a line before its comment, put behind `acc`, which is held in reverse. -/
def beforeComment (acc : List Char) : List Char → List Char
  | [] => acc.reverse
  | '/' :: '/' :: _ => acc.reverse
  | c :: cs => beforeComment (c :: acc) cs

/-- What a line holds: nothing, or an instruction, or a fault. -/
def ofLine? (line : List Char) : Option (Except DecodeCause Instruction) :=
  let code := Text.trim (beforeComment [] line)
  if code.isEmpty then none else some (ofWords (String.ofList code) (Text.words code))

/-- The items of numbered lines, faults under the number of their line. -/
def ofLines (numbered : List (List Char × Nat)) : List (Except DecodeError Instruction) :=
  numbered.filterMap fun (line, number) =>
    (ofLine? line).map fun
      | .ok i => .ok i
      | .error cause => .error ⟨number, cause⟩

/-- Reads a program text: in order, the instruction or the fault of each line that is not blank. -/
def decode (text : String) : List (Except DecodeError Instruction) :=
  ofLines ((Text.lines text.toList).zipIdx 1)

/-- The instructions of a program text, faulty lines left out. -/
def decodeGood (text : String) : List Instruction :=
  (decode text).filterMap Except.toOption

end Instruction

end Jack.Vm
