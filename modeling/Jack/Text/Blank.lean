import Jack.Text.Pieces

/-!
# Blanks and words

The characters that separate words in program text are those with the Unicode property
`White_Space`.
-/

namespace Jack.Text

/-- The 25 characters with the property `White_Space`. -/
def isBlank (c : Char) : Bool :=
  let n := c.toNat
  (0x09 ≤ n && n ≤ 0x0D) || n == 0x20 || n == 0x85 || n == 0xA0 || n == 0x1680 ||
    (0x2000 ≤ n && n ≤ 0x200A) || n == 0x2028 || n == 0x2029 || n == 0x202F || n == 0x205F ||
    n == 0x3000

/-- A text without the blanks at its two ends. -/
def trim (cs : List Char) : List Char :=
  ((cs.dropWhile isBlank).reverse.dropWhile isBlank).reverse

/-- The words of a text: its non-empty pieces between blanks. -/
def words (cs : List Char) : List String :=
  ((pieces isBlank cs).filter (!·.isEmpty)).map String.ofList

end Jack.Text
