/-!
# Decimal numbers

Values of digit runs, a reader that gives up as soon as a bound is reached, and readers for 16-bit
numbers: at most one sign, then digits with any number of leading zeros. The sign is a plus, or also
a minus where signed numbers are written; then only zero has one.
-/

namespace Jack.Text

/-- The value of a decimal digit. -/
def digitValue (c : Char) : Nat := c.toNat - '0'.toNat

/-- The value of a run of decimal digits. -/
def decimalValue (ds : List Char) : Nat :=
  ds.foldl (fun n d => 10 * n + digitValue d) 0

/-- A number, if it is below the bound. -/
def below? (bound n : Nat) : Option Nat := if n < bound then some n else none

/-- One more digit behind the value read so far. The value is multiplied first and the digit added
then, and the bound holds after each of the two; what has reached it once is not read on. -/
def appendDigit (bound : Nat) (n? : Option Nat) (d : Char) : Option Nat :=
  (n?.bind fun n => below? bound (10 * n)).bind fun n => below? bound (n + digitValue d)

/-- The value of a run of digits, if it is below the bound. -/
def valueBelow? (bound : Nat) (ds : List Char) : Option Nat :=
  ds.foldl (appendDigit bound) (some 0)

/-- The number that a non-empty run of digits writes, if it has 16 bits. -/
def wordOfDigits? (ds : List Char) : Option UInt16 :=
  if ds.isEmpty || !ds.all Char.isDigit then none
  else (valueBelow? UInt16.size ds).map Nat.toUInt16

/-- Reads a 16-bit number, with at most one plus sign in front. -/
def readWord? (s : String) : Option UInt16 :=
  match s.toList with
  | '+' :: ds => wordOfDigits? ds
  | ds => wordOfDigits? ds

/-- Reads a 16-bit number that is written as a signed one. -/
def readSignedWord? (s : String) : Option UInt16 :=
  match s.toList with
  | '-' :: ds => (wordOfDigits? ds).filter (· == 0)
  | _ => readWord? s

/-- More digits never make a number smaller. -/
theorem le_foldl_digits (ds : List Char) (n : Nat) :
    n ≤ ds.foldl (fun n d => 10 * n + digitValue d) n := by
  induction ds generalizing n with
  | nil => exact Nat.le_refl n
  | cons d ds ih =>
    have h := ih (10 * n + digitValue d)
    rw [List.foldl_cons]
    omega

/-- A product that reaches the bound stays there when the digit is added. -/
theorem appendDigit_some (bound n : Nat) (d : Char) :
    appendDigit bound (some n) d = below? bound (10 * n + digitValue d) := by
  by_cases h : 10 * n < bound
  · simp [appendDigit, below?, h]
  · have hs : ¬ 10 * n + digitValue d < bound := by omega
    simp [appendDigit, below?, h, hs]

/-- Once the bound is passed, no digit brings a value back. -/
theorem foldl_appendDigit_none (bound : Nat) (ds : List Char) :
    ds.foldl (appendDigit bound) none = none := by
  induction ds with
  | nil => rfl
  | cons d ds ih => exact ih

/-- Reading digits under a bound gives their value where it is below the bound. -/
theorem foldl_appendDigit (bound : Nat) (ds : List Char) (n : Nat) (h : n < bound) :
    ds.foldl (appendDigit bound) (some n) =
      below? bound (ds.foldl (fun n d => 10 * n + digitValue d) n) := by
  induction ds generalizing n with
  | nil => simp [below?, h]
  | cons d ds ih =>
    rw [List.foldl_cons, List.foldl_cons, appendDigit_some]
    by_cases hd : 10 * n + digitValue d < bound
    · rw [below?, if_pos hd]
      exact ih _ hd
    · have hle := le_foldl_digits ds (10 * n + digitValue d)
      rw [below?, if_neg hd, foldl_appendDigit_none, below?, if_neg (by omega)]

/-- The bounded reader gives the value exactly when the value is below the bound. -/
theorem valueBelow?_eq {bound : Nat} (h : 0 < bound) (ds : List Char) :
    valueBelow? bound ds = if decimalValue ds < bound then some (decimalValue ds) else none :=
  foldl_appendDigit bound ds 0 h

end Jack.Text
