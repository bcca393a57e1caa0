import Jack.Text.Shown

/-!
# Quoted characters and texts

A quoted character stands between apostrophes, a quoted text between quotation marks. Inside, the
surrounding mark and the backslash get a backslash, four controls have names, and every other
character that is not shown as itself is given by its code point in hexadecimal.
-/

namespace Jack.Text

/-- A number in lower-case hexadecimal. -/
def hexadecimal (n : Nat) : String := String.ofList (Nat.toDigits 16 n)

/-- A character as it stands inside quotes made with `mark`. -/
def escaped (mark c : Char) : String :=
  if c = '\x00' then "\\0"
  else if c = '\t' then "\\t"
  else if c = '\n' then "\\n"
  else if c = '\r' then "\\r"
  else if c = '\\' || c = mark then "\\" ++ c.toString
  else if isShown c then c.toString
  else "\\u\x7b" ++ hexadecimal c.toNat ++ "\x7d"

/-- A character between apostrophes. -/
def quotedChar (c : Char) : String :=
  "'" ++ escaped '\'' c ++ "'"

/-- A text between quotation marks. -/
def quoted (s : String) : String :=
  s.toList.foldl (fun out c => out ++ escaped '"' c) "\"" ++ "\""

end Jack.Text
