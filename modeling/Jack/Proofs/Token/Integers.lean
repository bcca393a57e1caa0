import Jack.Proofs.Token.Unambiguous
import Mathlib.Data.Nat.Digits.Defs

/-!
# Integer constants

A run of digits of any length is one token. Its value is accumulated digit by digit and given up as
soon as it needs more than 64 bits; as more digits never make a number smaller, this happens exactly
where the value of the whole run needs more (`integer_read_up_to_limit`).
-/

namespace Jack

open Text.Utf8 (bytes)

/-- The values of the digits of a run, that of the ones first. -/
def placeDigits (run : List UInt8) : List Nat := run.reverse.map fun d => d.toNat - 0x30

/-- The value read digit by digit is that of the digits in their places. -/
lemma digitsValue_eq_ofDigits (run : List UInt8) :
    digitsValue run = Nat.ofDigits 10 (placeDigits run) := by
  rw [Nat.ofDigits_eq_foldr, placeDigits, List.foldr_map, List.foldr_reverse, digitsValue]
  simp only [Nat.cast_id, Nat.add_comm]

/-- The digits taken are the run of them. -/
lemma Digits.takeWhile_append {run rest : List UInt8} (h : Digits run rest) :
    (run ++ rest).takeWhile isDigitByte = run :=
  (Window.takeWhile_append_of_run (fun d hd => isDigitByte_iff.2 (h.2.1 d hd)) fun d hd =>
    Bool.eq_false_iff.2 (mt isDigitByte_iff.1 (h.2.2 d hd))).1

/-- The longest run of digits in front of a byte list is one. -/
lemma Digits.unique {run rest run' rest' : List UInt8} (h : Digits run rest)
    (h' : Digits run' rest') (he : run ++ rest = run' ++ rest') : run = run' := by
  rw [← h.takeWhile_append, he, h'.takeWhile_append]

/-- Under the bound a number is what is read, and from the bound on it is an overflow. -/
lemma kind_iff_of_bounded {k : TokenKind} {n bound : Nat}
    (hk : k = if n < bound then .integer n else .error .integerOverflow) :
    (∀ v, k = .integer v ↔ v = n ∧ n < bound) ∧
      (k = .error .integerOverflow ↔ bound ≤ n) := by
  subst hk
  split
  · next hn => simp [hn, eq_comm]
  · next hn => simp [hn, Nat.le_of_not_lt hn]

/-- Where a digit comes next, the token is the longest run of digits from there on, whatever its
length: an integer constant if the value of the run has 64 bits, and else the error. -/
theorem integer_read_up_to_limit (l : Lexer) {b : UInt8} {r : List UInt8}
    (hr : l.window.rest = b :: r) (hb : IsDigit b) :
    ∃ run, Digits run l.nextToken.2.window.rest ∧ l.window.Passes run l.nextToken.2.window ∧
      bytes l.nextToken.1.lexeme = run ∧
      l.nextToken.1.span = ⟨l.window.pos, l.nextToken.2.window.pos⟩ ∧
      (∀ v, l.nextToken.1.kind = .integer v ↔
        v = Nat.ofDigits 10 (placeDigits run) ∧ Nat.ofDigits 10 (placeDigits run) < 2 ^ 64) ∧
      (l.nextToken.1.kind = .error .integerOverflow ↔
        2 ^ 64 ≤ Nat.ofDigits 10 (placeDigits run)) := by
  have hsolid : Window.Solid l.window.rest := by
    rw [hr]
    exact solid_of_word (.inr hb)
  have hscan : l.window.scan = l.window.scanInteger := by
    rw [Window.scan, Window.skipTrivia_of_solid hsolid]
    exact Window.scanToken_of_digit hb hr
  have hd := Window.digits_takeWhile hr hb
  have hkind := l.window.kind_scanInteger
  rw [digitsValue_eq_ofDigits] at hkind
  unfold Lexer.nextToken
  rw [hscan]
  refine ⟨_, hd, Window.passes_takeWhile _ _, ?_, rfl, kind_iff_of_bounded hkind⟩
  rw [Window.lexeme_scanInteger]
  exact bytes_ofList_asciiChars fun d h =>
    le_of_isWordByte (isWordByte_iff.2 (.inr (hd.2.1 d h)))

/-- The largest integer constant, with two zeros in front, and the next number, which goes beyond
the limit only when its last digit is added. -/
theorem integer_read_up_to_limit_sharp :
    (Lexer.ofSource ⟨bytes "0018446744073709551615;", .finished⟩).nextToken.1.kind =
        .integer 18446744073709551615 ∧
      (Lexer.ofSource ⟨bytes "18446744073709551616;", .finished⟩).nextToken.1.kind =
        .error .integerOverflow := by
  have hdigits {run : List UInt8} (hr : run ≠ [] ∧ run.all isDigitByte = true) :
      Digits run (bytes ";") := by
    refine ⟨hr.1, fun d hd => isDigitByte_iff.1 (List.all_eq_true.1 hr.2 d hd), fun d hd h => ?_⟩
    obtain rfl : 0x3B = d := Option.some.inj hd
    exact absurd h (by unfold IsDigit; decide)
  constructor
  · have hr : (Window.ofSource ⟨bytes "0018446744073709551615;", .finished⟩).rest =
        0x30 :: bytes "018446744073709551615;" :=
      (Window.rest_ofSource _).trans (by decide +kernel)
    obtain ⟨run, hd, hp, -, -, hv, -⟩ := integer_read_up_to_limit
      (.ofSource ⟨bytes "0018446744073709551615;", .finished⟩) hr (by unfold IsDigit; decide)
    have hs : bytes "0018446744073709551615" ++ bytes ";" = run ++ _ :=
      Eq.trans (by decide +kernel) (hr.symm.trans hp.rest_eq)
    obtain rfl := (hdigits (by decide +kernel)).unique hd hs
    exact (hv _).2 (by decide +kernel)
  · have hr : (Window.ofSource ⟨bytes "18446744073709551616;", .finished⟩).rest =
        0x31 :: bytes "8446744073709551616;" :=
      (Window.rest_ofSource _).trans (by decide +kernel)
    obtain ⟨run, hd, hp, -, -, -, ho⟩ := integer_read_up_to_limit
      (.ofSource ⟨bytes "18446744073709551616;", .finished⟩) hr (by unfold IsDigit; decide)
    have hs : bytes "18446744073709551616" ++ bytes ";" = run ++ _ :=
      Eq.trans (by decide +kernel) (hr.symm.trans hp.rest_eq)
    obtain rfl := (hdigits (by decide +kernel)).unique hd hs
    exact ho.2 (by decide +kernel)

end Jack
