import Jack.Text.Pieces

/-!
# Lines

A line ends at a line feed, and a carriage return right before that line feed belongs to the ending.
Text after the last line feed is a line of its own, taken as it stands.
-/

namespace Jack.Text

/-- A terminated line without the carriage return of its ending. -/
def dropReturn (line : List Char) : List Char :=
  if line.getLast? = some '\r' then line.dropLast else line

/-- The lines of a text. -/
def lines (cs : List Char) : List (List Char) :=
  match (pieces (· == '\n') cs).reverse with
  | [] => []
  | rest :: terminated =>
    (terminated.map dropReturn).reverse ++ (if rest.isEmpty then [] else [rest])

/-- The line with the given number, counted from one; empty when there is no such line. -/
def lineAt (number : Nat) (cs : List Char) : List Char :=
  ((lines cs)[number - 1]?).getD []

/-- The empty text has no lines. -/
@[simp] theorem lines_nil : lines [] = [] := rfl

end Jack.Text
