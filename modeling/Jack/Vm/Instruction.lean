import Jack.Vm.Op
import Jack.Vm.Segment

/-!
# Instructions

One command of the stack machine, the line of text that writes it, and its effect on the depth of
the stack. Operands are 16-bit words.
-/

namespace Jack.Vm

/-- One instruction of the stack machine. -/
inductive Instruction where
  /-- Puts a word of a segment on the stack. -/
  | push (segment : Segment) (index : UInt16)
  /-- Moves the topmost word into a segment. -/
  | pop (segment : Segment) (index : UInt16)
  | arithmetic (op : Op)
  /-- Names the place it stands at. -/
  | label (name : String)
  | goto (name : String)
  /-- Takes a word and jumps to a label when the word is not zero. -/
  | ifGoto (name : String)
  /-- Starts a subroutine with the given number of local variables. -/
  | function (name : String) (locals : UInt16)
  /-- Calls a subroutine with the given number of arguments from the stack. -/
  | call (name : String) (args : UInt16)
  /-- Leaves the subroutine with the topmost word as its value. -/
  | ret
  deriving DecidableEq, Repr

namespace Instruction

/-- The net change of the stack depth; entering and leaving count within the callee's own stack. -/
def stackEffect : Instruction → Int
  | .push _ _ => 1
  | .pop _ _ => -1
  | .arithmetic op => 1 - op.arity
  | .label _ | .goto _ | .function _ _ => 0
  | .ifGoto _ => -1
  | .call _ args => 1 - args.toNat
  | .ret => -1

/-- The line that writes an instruction. -/
def text : Instruction → String
  | .push segment index => "push " ++ segment.name ++ " " ++ index.toNat.repr
  | .pop segment index => "pop " ++ segment.name ++ " " ++ index.toNat.repr
  | .arithmetic op => op.mnemonic
  | .label name => "label " ++ name
  | .goto name => "goto " ++ name
  | .ifGoto name => "if-goto " ++ name
  | .function name locals => "function " ++ name ++ " " ++ locals.toNat.repr
  | .call name args => "call " ++ name ++ " " ++ args.toNat.repr
  | .ret => "return"

/-- Adds the lines of a program to `out`. -/
def listingOnto (out : String) (program : List Instruction) : String :=
  program.foldl (fun out i => out ++ i.text ++ "\n") out

/-- The text of a program, one instruction on each line. -/
def listing (program : List Instruction) : String := listingOnto "" program

/-- A listing is put behind the text so far. -/
theorem listingOnto_eq (out : String) (program : List Instruction) :
    listingOnto out program = out ++ listing program := by
  induction program generalizing out with
  | nil => simp [listing, listingOnto]
  | cons i program ih =>
    have h := ih ("" ++ i.text ++ "\n")
    calc listingOnto out (i :: program) = listingOnto (out ++ i.text ++ "\n") program := rfl
      _ = out ++ i.text ++ "\n" ++ listing program := ih _
      _ = out ++ ("" ++ i.text ++ "\n" ++ listing program) := by simp [String.append_assoc]
      _ = out ++ listingOnto ("" ++ i.text ++ "\n") program := by rw [h]
      _ = out ++ listing (i :: program) := rfl

/-- The empty program is listed as the empty text. -/
@[simp] theorem listing_nil : listing [] = "" := rfl

/-- Each instruction is listed on a line of its own. -/
@[simp] theorem listing_cons (i : Instruction) (program : List Instruction) :
    listing (i :: program) = i.text ++ "\n" ++ listing program := by
  have h : listing (i :: program) = listingOnto ("" ++ i.text ++ "\n") program := rfl
  rw [h, listingOnto_eq, String.empty_append]

end Instruction

end Jack.Vm
