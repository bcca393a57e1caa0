/-!
# UTF-8

Reading the character at the front of a byte list, and the decoding that puts U+FFFD in place of
every maximal part that cannot be continued to a character. A single character is read by decoding
as many bytes as its first one announces.
-/

namespace Jack.Text.Utf8

/-- What stands at the front of a byte list, with the number of bytes it takes. -/
inductive Front where
  /-- A well-formed character. -/
  | scalar (c : Char) (length : Nat)
  /-- The longest start of a character that the next byte does not continue, or a stray byte. -/
  | broken (length : Nat)
  deriving DecidableEq, Repr

/-- Reads `n` continuation bytes, the first of them between `low` and `high`, onto a value of which
`taken` bytes are read already. -/
def continuation : (n : Nat) → (low high : UInt8) → (value taken : Nat) → List UInt8 → Front
  | 0, _, _, value, taken, _ => .scalar (Char.ofNat value) taken
  | _ + 1, _, _, _, taken, [] => .broken taken
  | n + 1, low, high, value, taken, b :: rest =>
    if low ≤ b ∧ b ≤ high then
      continuation n 0x80 0xBF (value * 64 + (b.toNat - 0x80)) (taken + 1) rest
    else .broken taken

/-- The front of `b :: rest`. Overlong forms, surrogates and values above U+10FFFF are ruled out by
the range of the first continuation byte. -/
def front (b : UInt8) (rest : List UInt8) : Front :=
  if b ≤ 0x7F then .scalar (Char.ofNat b.toNat) 1
  else if 0xC2 ≤ b ∧ b ≤ 0xDF then continuation 1 0x80 0xBF (b.toNat - 0xC0) 1 rest
  else if b = 0xE0 then continuation 2 0xA0 0xBF 0 1 rest
  else if b = 0xED then continuation 2 0x80 0x9F 0xD 1 rest
  else if 0xE1 ≤ b ∧ b ≤ 0xEF then continuation 2 0x80 0xBF (b.toNat - 0xE0) 1 rest
  else if b = 0xF0 then continuation 3 0x90 0xBF 0 1 rest
  else if 0xF1 ≤ b ∧ b ≤ 0xF3 then continuation 3 0x80 0xBF (b.toNat - 0xF0) 1 rest
  else if b = 0xF4 then continuation 3 0x80 0x8F 4 1 rest
  else .broken 1

/-- The character that stands for what cannot be read. -/
def replacement : Char := '\uFFFD'

/-- The bytes of a text. -/
def encode (cs : List Char) : List UInt8 := cs.flatMap String.utf8EncodeChar

/-- The bytes of a string. -/
def bytes (s : String) : List UInt8 := encode s.toList

/-- Decodes every byte list onto `out`, one replacement for each broken part. -/
def lossyOnto (out : String) : List UInt8 → String
  | [] => out
  | b :: rest =>
    match front b rest with
    | .scalar c n => lossyOnto (out.push c) (rest.drop (n - 1))
    | .broken n => lossyOnto (out.push replacement) (rest.drop (n - 1))
termination_by bs => bs.length
decreasing_by all_goals simp only [List.length_drop, List.length_cons]; omega

/-- Decodes every byte list, one replacement for each broken part. -/
def lossy (bs : List UInt8) : String := lossyOnto "" bs

/-- Decodes onto `out` if every part is well formed. -/
def decodeOnto? (out : String) : List UInt8 → Option String
  | [] => some out
  | b :: rest =>
    match front b rest with
    | .scalar c n => decodeOnto? (out.push c) (rest.drop (n - 1))
    | .broken _ => none
termination_by bs => bs.length
decreasing_by simp only [List.length_drop, List.length_cons]; omega

/-- The string that a byte list encodes, if it encodes one. -/
def decode? (bs : List UInt8) : Option String := decodeOnto? "" bs

/-- How many bytes a character has that starts with the byte `b`; none for a byte that starts none.
Some of the bytes let through here start no well-formed character: this only tells how many bytes
are to be decoded. -/
def announced (b : UInt8) : Nat :=
  if b ≤ 0x7F then 1
  else if 0xC0 ≤ b ∧ b ≤ 0xDF then 2
  else if 0xE0 ≤ b ∧ b ≤ 0xEF then 3
  else if 0xF0 ≤ b ∧ b ≤ 0xF7 then 4
  else 0

/-- The character in front of `b :: bs`: as many bytes as its first one announces are decoded. -/
def firstChar? (b : UInt8) (bs : List UInt8) : Option Char :=
  if announced b = 0 ∨ bs.length + 1 < announced b then none
  else (decode? ((b :: bs).take (announced b))).bind fun s => s.toList.head?

/-- A character takes at least one byte. -/
theorem announced_ne_zero {b : UInt8} {bs : List UInt8} {c : Char}
    (h : firstChar? b bs = some c) : announced b ≠ 0 := by
  intro hn
  rw [firstChar?, if_pos (.inl hn)] at h
  cases h

end Jack.Text.Utf8
