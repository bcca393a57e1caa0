import Jack.Text.Utf8
import Mathlib.Tactic.Lemma

/-!
# Reading and decoding UTF-8

A character is read at the front of a byte list exactly where its encoding stands
(`front_eq_scalar_iff`), by way of the table of well-formed sequences. Decoding is then determined
by the encodings alone: every byte list has exactly one decoding, and `lossy` finds it
(`decoded_lossy`, `Decoded.unique`).
-/

namespace Jack.Text.Utf8

/-! ### Well-formed sequences -/

/-- A byte that continues a character. -/
def Tail (b : UInt8) : Prop := 0x80 ≤ b.toNat ∧ b.toNat ≤ 0xBF

/-- The well-formed byte sequences, split at their first byte, with the code points they stand
for. -/
inductive Form : UInt8 → List UInt8 → Nat → Prop where
  | one {b : UInt8} :
    b.toNat ≤ 0x7F →
    Form b [] b.toNat
  | two {b x : UInt8} :
    0xC2 ≤ b.toNat → b.toNat ≤ 0xDF →
    Tail x →
    Form b [x] ((b.toNat - 0xC0) * 64 + (x.toNat - 0x80))
  | three {b x y : UInt8} :
    0xE0 ≤ b.toNat → b.toNat ≤ 0xEF →
    (b.toNat = 0xE0 → 0xA0 ≤ x.toNat) → (b.toNat = 0xED → x.toNat ≤ 0x9F) →
    Tail x → Tail y →
    Form b [x, y] (((b.toNat - 0xE0) * 64 + (x.toNat - 0x80)) * 64 + (y.toNat - 0x80))
  | four {b x y z : UInt8} :
    0xF0 ≤ b.toNat → b.toNat ≤ 0xF4 →
    (b.toNat = 0xF0 → 0x90 ≤ x.toNat) → (b.toNat = 0xF4 → x.toNat ≤ 0x8F) →
    Tail x → Tail y → Tail z →
    Form b [x, y, z]
      ((((b.toNat - 0xF0) * 64 + (x.toNat - 0x80)) * 64 + (y.toNat - 0x80)) * 64
        + (z.toNat - 0x80))

/-- A lead in the ASCII range is the character. -/
lemma Form.eq_of_le {b bs v} (h : Form b bs v) (hb : b.toNat ≤ 0x7F) : v = b.toNat := by
  cases h with
  | one => rfl
  | two => omega
  | three => omega
  | four => omega

/-- A form has a lead in the ASCII range exactly for an ASCII value. -/
lemma Form.le_iff {b bs v} (h : Form b bs v) : b.toNat ≤ 0x7F ↔ v ≤ 0x7F := by
  cases h <;> omega

/-- A form has a lead in the ASCII range exactly where nothing follows it. -/
lemma Form.le_iff_eq_nil {b bs v} (h : Form b bs v) : b.toNat ≤ 0x7F ↔ bs = [] := by
  cases h with
  | one hb => exact iff_of_true hb rfl
  | two hb => exact iff_of_false (by omega) nofun
  | three hb => exact iff_of_false (by omega) nofun
  | four hb => exact iff_of_false (by omega) nofun

/-- What follows the lead of a form are tail bytes. -/
lemma Form.tail_of_mem {b x : UInt8} {bs : List UInt8} {v : Nat} (h : Form b bs v)
    (hx : x ∈ bs) : Tail x := by
  cases h with
  | one _ => cases hx
  | two _ _ hy => exact List.forall_mem_singleton.2 hy x hx
  | three _ _ _ _ hy hz => exact List.forall_mem_cons.2 ⟨hy, List.forall_mem_singleton.2 hz⟩ x hx
  | four _ _ _ _ hy hz hu =>
    exact List.forall_mem_cons.2 ⟨hy, List.forall_mem_cons.2 ⟨hz, List.forall_mem_singleton.2 hu⟩⟩
      x hx

/-- A byte within the bounds adds its six bits to the value. -/
lemma continuation_cons {n value taken x bs} (low high : UInt8)
    (h : low.toNat ≤ x.toNat) (h' : x.toNat ≤ high.toNat) :
    continuation (n + 1) low high value taken (x :: bs) =
      continuation n 0x80 0xBF (value * 64 + (x.toNat - 0x80)) (taken + 1) bs := by
  have hx : low ≤ x ∧ x ≤ high := ⟨h, h'⟩
  rw [continuation, if_pos hx]

/-- A tail byte adds its six bits to the value. -/
lemma continuation_tail {n value taken x bs} (h : Tail x) :
    continuation (n + 1) 0x80 0xBF value taken (x :: bs) =
      continuation n 0x80 0xBF (value * 64 + (x.toNat - 0x80)) (taken + 1) bs :=
  continuation_cons 0x80 0xBF h.1 h.2

/-- A continuation that comes to a character starts with a byte within the bounds. -/
lemma exists_cons_of_continuation {n low high value taken bs c len}
    (h : continuation (n + 1) low high value taken bs = .scalar c len) :
    ∃ x more, bs = x :: more ∧ low.toNat ≤ x.toNat ∧ x.toNat ≤ high.toNat ∧
      continuation n 0x80 0xBF (value * 64 + (x.toNat - 0x80)) (taken + 1) more
        = .scalar c len := by
  cases bs with
  | nil => cases h
  | cons x more =>
    simp only [continuation] at h
    split at h
    · next hx => exact ⟨x, more, rfl, hx.1, hx.2, h⟩
    · cases h

/-- A continuation by one byte comes to a character with the bits of that byte. -/
lemma exists_one_of_continuation {low high value taken bs c len}
    (h : continuation 1 low high value taken bs = .scalar c len) :
    ∃ x more, bs = x :: more ∧ low.toNat ≤ x.toNat ∧ x.toNat ≤ high.toNat ∧
      c = Char.ofNat (value * 64 + (x.toNat - 0x80)) ∧ len = taken + 1 := by
  obtain ⟨x, more, rfl, hx, hx', h⟩ := exists_cons_of_continuation h
  simp only [continuation, Front.scalar.injEq] at h
  exact ⟨x, more, rfl, hx, hx', h.1.symm, h.2.symm⟩

/-- A continuation by two bytes comes to a character with the bits of both. -/
lemma exists_two_of_continuation {low high value taken bs c len}
    (h : continuation 2 low high value taken bs = .scalar c len) :
    ∃ x y more, bs = x :: y :: more ∧ low.toNat ≤ x.toNat ∧ x.toNat ≤ high.toNat ∧ Tail y ∧
      c = Char.ofNat ((value * 64 + (x.toNat - 0x80)) * 64 + (y.toNat - 0x80)) ∧
      len = taken + 2 := by
  obtain ⟨x, more, rfl, hx, hx', h⟩ := exists_cons_of_continuation h
  obtain ⟨y, more, rfl, hy, hy', hc, hl⟩ := exists_one_of_continuation h
  exact ⟨x, y, more, rfl, hx, hx', ⟨hy, hy'⟩, hc, hl⟩

/-- A continuation by three bytes comes to a character with the bits of all three. -/
lemma exists_three_of_continuation {low high value taken bs c len}
    (h : continuation 3 low high value taken bs = .scalar c len) :
    ∃ x y z more, bs = x :: y :: z :: more ∧ low.toNat ≤ x.toNat ∧ x.toNat ≤ high.toNat ∧
      Tail y ∧ Tail z ∧
      c = Char.ofNat (((value * 64 + (x.toNat - 0x80)) * 64 + (y.toNat - 0x80)) * 64
        + (z.toNat - 0x80)) ∧
      len = taken + 3 := by
  obtain ⟨x, more, rfl, hx, hx', h⟩ := exists_cons_of_continuation h
  obtain ⟨y, z, more, rfl, hy, hy', hz, hc, hl⟩ := exists_two_of_continuation h
  exact ⟨x, y, z, more, rfl, hx, hx', ⟨hy, hy'⟩, hz, hc, hl⟩

/-- A well-formed sequence is read as its code point. -/
lemma Form.front_append {b bs v} (h : Form b bs v) (more : List UInt8) :
    front b (bs ++ more) = .scalar (Char.ofNat v) (bs.length + 1) := by
  simp only [front, UInt8.le_iff_toNat_le, ← UInt8.toNat_inj, UInt8.reduceToNat]
  cases h with
  | one hb => rw [if_pos hb, List.length_nil]
  | two hb hb' hx =>
    rw [if_neg (by omega), if_pos ⟨hb, hb'⟩]
    exact continuation_tail hx
  | three hb hb' h0 hd hx hy =>
    rw [if_neg (by omega), if_neg (by omega)]
    split
    · next e =>
      rw [e]
      exact (continuation_cons 0xA0 0xBF (h0 e) hx.2).trans (continuation_tail hy)
    split
    · next e =>
      rw [e]
      exact (continuation_cons 0x80 0x9F hx.1 (hd e)).trans (continuation_tail hy)
    · rw [if_pos (by omega)]
      exact (continuation_tail hx).trans (continuation_tail hy)
  | four hb hb' h0 h4 hx hy hz =>
    rw [if_neg (by omega), if_neg (by omega), if_neg (by omega), if_neg (by omega),
      if_neg (by omega)]
    split
    · next e =>
      rw [e]
      exact (continuation_cons 0x90 0xBF (h0 e) hx.2).trans
        ((continuation_tail hy).trans (continuation_tail hz))
    split
    · exact (continuation_tail hx).trans ((continuation_tail hy).trans (continuation_tail hz))
    · have e : b.toNat = 0xF4 := by omega
      rw [if_pos e, e]
      exact (continuation_cons 0x80 0x8F hx.1 (h4 e)).trans
        ((continuation_tail hy).trans (continuation_tail hz))

/-- What the first byte of a longer sequence says of the rest: how many bytes are to follow, the
range of the first of them, and the value read so far. -/
inductive Lead (b : UInt8) : Nat → UInt8 → UInt8 → Nat → Prop where
  | one : b.toNat ≤ 0x7F → Lead b 0 0x80 0xBF b.toNat
  | two : 0xC2 ≤ b.toNat → b.toNat ≤ 0xDF → Lead b 1 0x80 0xBF (b.toNat - 0xC0)
  | threeLow : b.toNat = 0xE0 → Lead b 2 0xA0 0xBF 0
  | threeHigh : b.toNat = 0xED → Lead b 2 0x80 0x9F 0xD
  | three : 0xE1 ≤ b.toNat → b.toNat ≤ 0xEF → b.toNat ≠ 0xED →
    Lead b 2 0x80 0xBF (b.toNat - 0xE0)
  | fourLow : b.toNat = 0xF0 → Lead b 3 0x90 0xBF 0
  | four : 0xF1 ≤ b.toNat → b.toNat ≤ 0xF3 → Lead b 3 0x80 0xBF (b.toNat - 0xF0)
  | fourHigh : b.toNat = 0xF4 → Lead b 3 0x80 0x8F 4

/-- A byte leads a continuation or is broken off at once. -/
lemma front_cases (b : UInt8) :
    (∃ n low high value, Lead b n low high value ∧
      ∀ rest, front b rest = continuation n low high value 1 rest) ∨
    ∀ rest, front b rest = .broken 1 := by
  -- The cases are the ranges of lead bytes, in the order in which they are tested.
  by_cases h1 : b ≤ 0x7F
  · exact .inl ⟨_, _, _, _, .one h1, fun rest => by rw [front, if_pos h1]; rfl⟩
  by_cases h2 : 0xC2 ≤ b ∧ b ≤ 0xDF
  · exact .inl ⟨_, _, _, _, .two h2.1 h2.2, fun rest => by rw [front, if_neg h1, if_pos h2]⟩
  by_cases h3 : b = 0xE0
  · refine .inl ⟨_, _, _, _, .threeLow (congrArg UInt8.toNat h3), fun rest => ?_⟩
    rw [front, if_neg h1, if_neg h2, if_pos h3]
  by_cases h4 : b = 0xED
  · refine .inl ⟨_, _, _, _, .threeHigh (congrArg UInt8.toNat h4), fun rest => ?_⟩
    rw [front, if_neg h1, if_neg h2, if_neg h3, if_pos h4]
  by_cases h5 : 0xE1 ≤ b ∧ b ≤ 0xEF
  · have hd : b.toNat ≠ 0xED := fun e => h4 (UInt8.toNat_inj.1 e)
    refine .inl ⟨_, _, _, _, .three h5.1 h5.2 hd, fun rest => ?_⟩
    rw [front, if_neg h1, if_neg h2, if_neg h3, if_neg h4, if_pos h5]
  by_cases h6 : b = 0xF0
  · refine .inl ⟨_, _, _, _, .fourLow (congrArg UInt8.toNat h6), fun rest => ?_⟩
    rw [front, if_neg h1, if_neg h2, if_neg h3, if_neg h4, if_neg h5, if_pos h6]
  by_cases h7 : 0xF1 ≤ b ∧ b ≤ 0xF3
  · refine .inl ⟨_, _, _, _, .four h7.1 h7.2, fun rest => ?_⟩
    rw [front, if_neg h1, if_neg h2, if_neg h3, if_neg h4, if_neg h5, if_neg h6, if_pos h7]
  by_cases h8 : b = 0xF4
  · refine .inl ⟨_, _, _, _, .fourHigh (congrArg UInt8.toNat h8), fun rest => ?_⟩
    rw [front, if_neg h1, if_neg h2, if_neg h3, if_neg h4, if_neg h5, if_neg h6, if_neg h7,
      if_pos h8]
  · refine .inr fun rest => ?_
    rw [front, if_neg h1, if_neg h2, if_neg h3, if_neg h4, if_neg h5, if_neg h6, if_neg h7,
      if_neg h8]

/-- What is read as a character is a well-formed sequence for it. -/
lemma exists_form_of_front {b rest c n} (h : front b rest = .scalar c n) :
    ∃ bs more v, rest = bs ++ more ∧ Form b bs v ∧ c = Char.ofNat v ∧ n = bs.length + 1 := by
  obtain ⟨k, low, high, value, hb, hf⟩ | hf := front_cases b
  · rw [hf] at h
    cases hb with
    | one hb =>
      cases h
      exact ⟨[], rest, _, rfl, .one hb, rfl, rfl⟩
    | two hb hb' =>
      obtain ⟨x, more, rfl, hx, hx', hc, hn⟩ := exists_one_of_continuation h
      have hf : Form b [x] _ := .two hb hb' ⟨hx, hx'⟩
      exact ⟨[x], more, _, rfl, hf, hc, hn⟩
    | threeLow e =>
      obtain ⟨x, y, more, rfl, hx, hx', hy, hc, hn⟩ := exists_two_of_continuation h
      -- Behind this lead the first byte has a narrower range than a tail byte.
      have hx1 : 0x80 ≤ x.toNat := Nat.le_trans (by decide) hx
      have hf : Form b [x, y] _ :=
        .three (by omega) (by omega) (fun _ => hx) (by omega) ⟨hx1, hx'⟩ hy
      rw [e] at hf
      exact ⟨[x, y], more, _, rfl, hf, hc, hn⟩
    | threeHigh e =>
      obtain ⟨x, y, more, rfl, hx, hx', hy, hc, hn⟩ := exists_two_of_continuation h
      have hx1 : x.toNat ≤ 0xBF := Nat.le_trans hx' (by decide)
      have hf : Form b [x, y] _ :=
        .three (by omega) (by omega) (by omega) (fun _ => hx') ⟨hx, hx1⟩ hy
      rw [e] at hf
      exact ⟨[x, y], more, _, rfl, hf, hc, hn⟩
    | three hb hb' hd =>
      obtain ⟨x, y, more, rfl, hx, hx', hy, hc, hn⟩ := exists_two_of_continuation h
      have hf : Form b [x, y] _ :=
        .three (by omega) hb' (by omega) (fun e => absurd e hd) ⟨hx, hx'⟩ hy
      exact ⟨[x, y], more, _, rfl, hf, hc, hn⟩
    | fourLow e =>
      obtain ⟨x, y, z, more, rfl, hx, hx', hy, hz, hc, hn⟩ := exists_three_of_continuation h
      have hx1 : 0x80 ≤ x.toNat := Nat.le_trans (by decide) hx
      have hf : Form b [x, y, z] _ :=
        .four (by omega) (by omega) (fun _ => hx) (by omega) ⟨hx1, hx'⟩ hy hz
      rw [e] at hf
      exact ⟨[x, y, z], more, _, rfl, hf, hc, hn⟩
    | four hb hb' =>
      obtain ⟨x, y, z, more, rfl, hx, hx', hy, hz, hc, hn⟩ := exists_three_of_continuation h
      have hf : Form b [x, y, z] _ :=
        .four (by omega) (by omega) (by omega) (by omega) ⟨hx, hx'⟩ hy hz
      exact ⟨[x, y, z], more, _, rfl, hf, hc, hn⟩
    | fourHigh e =>
      obtain ⟨x, y, z, more, rfl, hx, hx', hy, hz, hc, hn⟩ := exists_three_of_continuation h
      have hx1 : x.toNat ≤ 0xBF := Nat.le_trans hx' (by decide)
      have hf : Form b [x, y, z] _ :=
        .four (by omega) (by omega) (by omega) (fun _ => hx') ⟨hx, hx1⟩ hy hz
      rw [e] at hf
      exact ⟨[x, y, z], more, _, rfl, hf, hc, hn⟩
  · rw [hf] at h
    cases h

/-- A well-formed sequence is the encoding of its code point. -/
lemma Form.toNat_ofNat {b bs v} (h : Form b bs v) : (Char.ofNat v).toNat = v := by
  have hv : v.isValidChar := by
    unfold Nat.isValidChar
    cases h with
    | one hb => omega
    | two hb hb' hx => simp only [Tail] at hx; omega
    | three hb hb' h0 hd hx hy => simp only [Tail] at hx hy; omega
    | four hb hb' h0 h4 hx hy hz => simp only [Tail] at hx hy hz; omega
  rw [Char.ofNat, dif_pos hv]
  rfl

/-- A byte is made again from its number. -/
lemma ofNat_eq_of_toNat {n : Nat} {b : UInt8} (h : n = b.toNat) : UInt8.ofNat n = b := by
  rw [h, UInt8.ofNat_toNat]

/-- A well-formed sequence is the encoding of its code point. -/
lemma Form.utf8EncodeChar_ofNat {b bs v} (h : Form b bs v) :
    String.utf8EncodeChar (Char.ofNat v) = b :: bs := by
  have hv : (Char.ofNat v).val.toNat = v := h.toNat_ofNat
  simp only [String.utf8EncodeChar, hv]
  cases h with
  | one hb => rw [if_pos hb, UInt8.ofNat_toNat]
  | two hb hb' hx =>
    unfold Tail at hx
    rw [if_neg (by omega), if_pos (by omega)]
    simp only [List.cons.injEq, and_true]
    exact ⟨ofNat_eq_of_toNat (by omega), ofNat_eq_of_toNat (by omega)⟩
  | three hb hb' h0 hd hx hy =>
    unfold Tail at hx hy
    rw [if_neg (by omega), if_neg (by omega), if_pos (by omega)]
    simp only [List.cons.injEq, and_true]
    exact ⟨ofNat_eq_of_toNat (by omega), ofNat_eq_of_toNat (by omega), ofNat_eq_of_toNat (by omega)⟩
  | four hb hb' h0 h4 hx hy hz =>
    unfold Tail at hx hy hz
    rw [if_neg (by omega), if_neg (by omega), if_neg (by omega)]
    simp only [List.cons.injEq, and_true]
    exact ⟨ofNat_eq_of_toNat (by omega), ofNat_eq_of_toNat (by omega),
      ofNat_eq_of_toNat (by omega), ofNat_eq_of_toNat (by omega)⟩

/-- Every number below 256 is that of a byte. -/
lemma exists_byte (n : Nat) (h : n < 256) : ∃ b : UInt8, UInt8.ofNat n = b ∧ b.toNat = n :=
  ⟨_, rfl, UInt8.toNat_ofNat_of_lt' h⟩

/-- Every character is encoded as a well-formed sequence for it. -/
lemma exists_form_utf8EncodeChar (c : Char) :
    ∃ b bs, String.utf8EncodeChar c = b :: bs ∧ Form b bs c.toNat := by
  have hv : c.toNat < 0xD800 ∨ 0xDFFF < c.toNat ∧ c.toNat < 0x110000 := c.valid
  have hc : c.val.toNat = c.toNat := rfl
  simp only [String.utf8EncodeChar, hc]
  generalize c.toNat = v at hv
  split
  · obtain ⟨b, eb, hb⟩ := exists_byte v (by omega)
    refine ⟨b, [], by rw [eb], ?_⟩
    rw [← hb]
    exact .one (by omega)
  split
  · obtain ⟨b, eb, hb⟩ := exists_byte (v / 64 % 32 + 192) (by omega)
    obtain ⟨x, ex, hx⟩ := exists_byte (v % 64 + 128) (by omega)
    refine ⟨b, [x], by rw [eb, ex], ?_⟩
    have e : v = (b.toNat - 0xC0) * 64 + (x.toNat - 0x80) := by omega
    rw [e]
    exact .two (by omega) (by omega) ⟨by omega, by omega⟩
  split
  · obtain ⟨b, eb, hb⟩ := exists_byte (v / 4096 % 16 + 224) (by omega)
    obtain ⟨x, ex, hx⟩ := exists_byte (v / 64 % 64 + 128) (by omega)
    obtain ⟨y, ey, hy⟩ := exists_byte (v % 64 + 128) (by omega)
    refine ⟨b, [x, y], by rw [eb, ex, ey], ?_⟩
    have e : v = ((b.toNat - 0xE0) * 64 + (x.toNat - 0x80)) * 64 + (y.toNat - 0x80) := by omega
    rw [e]
    exact .three (by omega) (by omega) (by omega) (by omega) ⟨by omega, by omega⟩
      ⟨by omega, by omega⟩
  · obtain ⟨b, eb, hb⟩ := exists_byte (v / 262144 % 8 + 240) (by omega)
    obtain ⟨x, ex, hx⟩ := exists_byte (v / 4096 % 64 + 128) (by omega)
    obtain ⟨y, ey, hy⟩ := exists_byte (v / 64 % 64 + 128) (by omega)
    obtain ⟨z, ez, hz⟩ := exists_byte (v % 64 + 128) (by omega)
    refine ⟨b, [x, y, z], by rw [eb, ex, ey, ez], ?_⟩
    have e : v = (((b.toNat - 0xF0) * 64 + (x.toNat - 0x80)) * 64 + (y.toNat - 0x80)) * 64
        + (z.toNat - 0x80) := by omega
    rw [e]
    exact .four (by omega) (by omega) (by omega) (by omega) ⟨by omega, by omega⟩
      ⟨by omega, by omega⟩ ⟨by omega, by omega⟩

/-- The bytes that encode a character have the form of its value. -/
lemma form_of_eq {c : Char} {b : UInt8} {bs : List UInt8}
    (he : String.utf8EncodeChar c = b :: bs) : Form b bs c.toNat := by
  obtain ⟨x, more, hx, hf⟩ := exists_form_utf8EncodeChar c
  rw [he, List.cons.injEq] at hx
  rwa [hx.1, hx.2]

/-- A character is read at the front exactly where its encoding stands. -/
theorem front_eq_scalar_iff {b : UInt8} {rest : List UInt8} {c : Char} {n : Nat} :
    front b rest = .scalar c n ↔
      n = (String.utf8EncodeChar c).length ∧ String.utf8EncodeChar c <+: b :: rest := by
  constructor
  · intro h
    obtain ⟨bs, more, v, rfl, hf, rfl, rfl⟩ := exists_form_of_front h
    rw [hf.utf8EncodeChar_ofNat]
    exact ⟨rfl, more, rfl⟩
  · rintro ⟨rfl, more, hm⟩
    obtain ⟨x, bs, he, hf⟩ := exists_form_utf8EncodeChar c
    rw [he, List.cons_append, List.cons.injEq] at hm
    obtain ⟨rfl, rfl⟩ := hm
    rw [hf.front_append, he, Char.ofNat_toNat, List.length_cons]

/-! ### Decoding -/

/-- A character pushed to the second text is pushed to both. -/
lemma append_push (pre out : String) (c : Char) : (pre ++ out).push c = pre ++ out.push c := by
  rw [String.push_eq_append, String.push_eq_append, String.append_assoc]

/-- Text in front of what is decoded stays in front. -/
lemma lossyOnto_append (pre out : String) (bs : List UInt8) :
    lossyOnto (pre ++ out) bs = pre ++ lossyOnto out bs := by
  fun_induction lossyOnto out bs with
  | case1 out => rw [lossyOnto]
  | case2 out b rest c n hf ih => simp only [lossyOnto, hf, append_push, ih]
  | case3 out b rest n hf ih => simp only [lossyOnto, hf, append_push, ih]

/-- What is decoded is put behind the text so far. -/
lemma lossyOnto_eq (out : String) (bs : List UInt8) : lossyOnto out bs = out ++ lossy bs := by
  rw [lossy, ← lossyOnto_append, String.append_empty]

/-- A character in front is decoded first. -/
lemma toList_lossy_scalar {b rest c n} (h : front b rest = .scalar c n) :
    (lossy (b :: rest)).toList = c :: (lossy (rest.drop (n - 1))).toList := by
  rw [lossy, lossyOnto, h]
  simp [lossyOnto_eq]

/-- A broken front is decoded as a replacement. -/
lemma toList_lossy_broken {b rest n} (h : front b rest = .broken n) :
    (lossy (b :: rest)).toList = replacement :: (lossy (rest.drop (n - 1))).toList := by
  rw [lossy, lossyOnto, h]
  simp [lossyOnto_eq]

/-- The empty input is decoded as the empty text. -/
@[simp] lemma toList_lossy_nil : (lossy []).toList = [] := by
  simp [lossy, lossyOnto]

/-- An encoded character is decoded, whatever follows. -/
lemma toList_lossy_utf8EncodeChar_append (c : Char) (bs : List UInt8) :
    (lossy (String.utf8EncodeChar c ++ bs)).toList = c :: (lossy bs).toList := by
  obtain ⟨b, more, he, hf⟩ := exists_form_utf8EncodeChar c
  rw [he, List.cons_append, toList_lossy_scalar (hf.front_append bs), Char.ofNat_toNat,
    Nat.add_sub_cancel, List.drop_left]

/-- An encoded text is decoded. -/
lemma toList_lossy_encode (cs : List Char) : (lossy (encode cs)).toList = cs := by
  induction cs with
  | nil => exact toList_lossy_nil
  | cons c cs ih =>
    rw [encode, List.flatMap_cons, toList_lossy_utf8EncodeChar_append]
    exact congrArg (c :: ·) ih

/-- The bytes of a text are decoded as the text. -/
lemma lossy_bytes (s : String) : lossy (bytes s) = s :=
  String.toList_inj.1 (toList_lossy_encode s.toList)

/-- No two texts have the same bytes. -/
lemma bytes_injective : Function.Injective bytes := Function.LeftInverse.injective lossy_bytes

/-- A byte below 128 encodes the character of its value. -/
lemma utf8EncodeChar_ofUInt8 {b : UInt8} (h : b.toNat ≤ 0x7F) :
    String.utf8EncodeChar (Char.ofUInt8 b) = [b] := by
  have hv : (Char.ofUInt8 b).val.toNat = b.toNat := UInt8.toNat_toUInt32 b
  simp only [String.utf8EncodeChar, hv]
  rw [if_pos h, UInt8.ofNat_toNat]

/-- The number of bytes that a front takes. -/
def Front.length : Front → Nat
  | .scalar _ n => n
  | .broken n => n

/-- A continuation takes no more bytes than there are. -/
lemma length_continuation_le (n : Nat) (low high : UInt8) (value taken : Nat) (bs : List UInt8) :
    (continuation n low high value taken bs).length ≤ taken + bs.length := by
  fun_induction continuation n low high value taken bs with
  | case1 => exact Nat.le_add_right _ _
  | case2 => exact Nat.le_add_right _ _
  | case3 _ _ _ _ _ _ _ _ ih =>
    rw [List.length_cons]
    omega
  | case4 => exact Nat.le_add_right _ _

/-- None of the bytes to follow is below 128. -/
lemma Lead.le_low {b n low high value} (h : Lead b n low high value) : 0x80 ≤ low.toNat := by
  cases h <;> decide

/-- The front of some bytes is no longer than they are. -/
lemma length_front_le (b : UInt8) (rest : List UInt8) :
    (front b rest).length ≤ rest.length + 1 := by
  obtain ⟨n, low, high, value, -, h⟩ | h := front_cases b
  · rw [h, Nat.add_comm]
    exact length_continuation_le n low high value 1 rest
  · rw [h]
    exact Nat.le_add_left 1 rest.length

/-- Bytes from an ASCII byte on do not bear on a continuation. -/
lemma continuation_append_ascii {n low high value taken q} (bs more : List UInt8)
    (hq : q.toNat ≤ 0x7F) (hl : 0x80 ≤ low.toNat) :
    continuation n low high value taken (bs ++ q :: more) =
      continuation n low high value taken bs := by
  fun_induction continuation n low high value taken bs with
  | case1 => rfl
  | case2 low high value taken n =>
    have hn : ¬ (low ≤ q ∧ q ≤ high) := fun h => by
      have := UInt8.le_iff_toNat_le.1 h.1
      omega
    rw [List.nil_append, continuation, if_neg hn]
  | case3 n low high value taken b rest hb ih =>
    rw [List.cons_append, continuation, if_pos hb, ih (by decide)]
  | case4 n low high value taken b rest hb =>
    rw [List.cons_append, continuation, if_neg hb]

/-- Bytes from an ASCII byte on do not bear on the front. -/
lemma front_append_ascii {q} (b : UInt8) (rest more : List UInt8) (hq : q.toNat ≤ 0x7F) :
    front b (rest ++ q :: more) = front b rest := by
  obtain ⟨n, low, high, value, hl, h⟩ | h := front_cases b
  · rw [h, h, continuation_append_ascii rest more hq hl.le_low]
  · rw [h, h]

/-- Bytes below 128 are decoded one by one. -/
lemma toList_lossy_ascii {bs : List UInt8} (h : ∀ b ∈ bs, b.toNat ≤ 0x7F) :
    (lossy bs).toList = bs.map Char.ofUInt8 := by
  induction bs with
  | nil => exact toList_lossy_nil
  | cons b bs ih =>
    have hb := toList_lossy_utf8EncodeChar_append (Char.ofUInt8 b) bs
    rw [utf8EncodeChar_ofUInt8 (h b List.mem_cons_self)] at hb
    rw [List.map_cons, ← ih fun c hc => h c (List.mem_cons_of_mem b hc)]
    exact hb

/-- A byte at which no character can be read is decoded, by itself, as the replacement. -/
lemma toList_lossy_singleton {b : UInt8} {rest : List UInt8}
    (h : ∀ c, ¬ String.utf8EncodeChar c <+: b :: rest) : (lossy [b]).toList = [replacement] := by
  cases hf : front b [] with
  | scalar c n =>
    have hc := (front_eq_scalar_iff.1 hf).2
    exact absurd (hc.trans ⟨rest, rfl⟩) (h c)
  | broken n => rw [toList_lossy_broken hf, List.drop_nil, toList_lossy_nil]

/-- Decoding starts anew at each byte below 128. -/
theorem lossy_append_ascii (bs more : List UInt8) {q : UInt8} (hq : q.toNat ≤ 0x7F) :
    (lossy (bs ++ q :: more)).toList = (lossy bs).toList ++ (lossy (q :: more)).toList := by
  induction hn : bs.length using Nat.strongRecOn generalizing bs with
  | ind n ih =>
    cases bs with
    | nil => simp
    | cons b rest =>
      have hl := length_front_le b rest
      have hs := front_append_ascii b rest more hq
      rw [List.cons_append]
      cases hf : front b rest with
      | scalar c k =>
        rw [hf] at hl hs
        have hk : k - 1 ≤ rest.length := by simp only [Front.length] at hl; omega
        have hd : (rest.drop (k - 1)).length < n := by
          rw [← hn, List.length_drop, List.length_cons]
          omega
        rw [toList_lossy_scalar hs, toList_lossy_scalar hf,
          List.drop_append_of_le_length hk, ih _ hd _ rfl, List.cons_append]
      | broken k =>
        rw [hf] at hl hs
        have hk : k - 1 ≤ rest.length := by simp only [Front.length] at hl; omega
        have hd : (rest.drop (k - 1)).length < n := by
          rw [← hn, List.length_drop, List.length_cons]
          omega
        rw [toList_lossy_broken hs, toList_lossy_broken hf,
          List.drop_append_of_le_length hk, ih _ hd _ rfl, List.cons_append]

/-! ### Broken parts -/

/-- No character can be read in front of `p ++ rest`, and `p` is the longest start of one there, or
a single byte. -/
structure Broken (p rest : List UInt8) : Prop where
  unreadable : ∀ c, ¬ String.utf8EncodeChar c <+: p ++ rest
  nonempty : p ≠ []
  started : p.length = 1 ∨ ∃ c, p <+: String.utf8EncodeChar c
  longest : ∀ c q, q <+: String.utf8EncodeChar c → q <+: p ++ rest → q.length ≤ p.length

/-- A decoding of a byte list: each encoded character is read, and each broken part becomes one
replacement character. -/
inductive Decoded : List UInt8 → List Char → Prop where
  | nil : Decoded [] []
  | char {bs cs} (c : Char) :
    Decoded bs cs →
    Decoded (String.utf8EncodeChar c ++ bs) (c :: cs)
  | broken {p bs cs} :
    Broken p bs →
    Decoded bs cs →
    Decoded (p ++ bs) (replacement :: cs)

/-- A continuation breaks off behind the bytes taken so far. -/
lemma le_of_continuation_broken {n low high value taken bs m}
    (h : continuation n low high value taken bs = .broken m) : taken ≤ m := by
  fun_induction continuation n low high value taken bs with
  | case1 => cases h
  | case2 => cases h; exact Nat.le_refl _
  | case3 _ _ _ _ _ _ _ _ ih => exact Nat.le_of_succ_le (ih h)
  | case4 => cases h; exact Nat.le_refl _

/-- A broken part is told by its bytes and the next one. -/
lemma continuation_broken_append {n low high value taken m} {xs ys : List UInt8}
    (h : continuation n low high value taken (xs ++ ys) = .broken m)
    (hm : m < taken + xs.length) (zs : List UInt8) :
    continuation n low high value taken (xs ++ zs) = .broken m := by
  induction xs generalizing n low high value taken with
  | nil => exact absurd (le_of_continuation_broken h) (Nat.not_le_of_lt hm)
  | cons x xs ih =>
    cases n with
    | zero => cases h
    | succ n =>
      rw [List.cons_append, continuation] at h ⊢
      split at h
      · next hx =>
        rw [if_pos hx]
        exact ih h (by rw [List.length_cons] at hm; omega)
      · next hx =>
        rw [if_neg hx]
        exact h

/-- Whatever is read so far of a character, some bytes complete it. -/
lemma exists_continuation_scalar (n value taken : Nat) :
    ∃ zs c, continuation n 0x80 0xBF value taken zs = .scalar c (taken + n) := by
  induction n generalizing value taken with
  | zero => exact ⟨[], _, rfl⟩
  | succ n ih =>
    obtain ⟨zs, c, hz⟩ := ih (value * 64) (taken + 1)
    refine ⟨0x80 :: zs, c, (continuation_tail ⟨Nat.le_refl _, by decide⟩).trans ?_⟩
    rw [← Nat.add_assoc, Nat.add_right_comm]
    exact hz

/-- A broken part of more than the bytes read before is the start of a character. -/
lemma exists_completion {n low high value taken bs m}
    (h : continuation n low high value taken bs = .broken m) (hm : taken < m) :
    ∃ zs c k, continuation n low high value taken (bs.take (m - taken) ++ zs) = .scalar c k
      ∧ m ≤ k := by
  fun_induction continuation n low high value taken bs with
  | case1 => cases h
  | case2 => cases h; exact absurd hm (Nat.lt_irrefl _)
  | case3 n low high value taken b rest hb ih =>
    obtain ⟨j, rfl⟩ : ∃ j, m = taken + 1 + j := ⟨m - (taken + 1), by omega⟩
    have hj : taken + 1 + j - taken = j + 1 := by omega
    have hs : ∃ zs c k, continuation n 0x80 0xBF (value * 64 + (b.toNat - 0x80)) (taken + 1)
        (rest.take j ++ zs) = .scalar c k ∧ taken + 1 + j ≤ k := by
      cases j with
      | zero =>
        obtain ⟨zs, c, hz⟩ :=
          exists_continuation_scalar n (value * 64 + (b.toNat - 0x80)) (taken + 1)
        exact ⟨zs, c, _, hz, by omega⟩
      | succ j =>
        have := ih h (by omega)
        rwa [Nat.add_sub_cancel_left] at this
    obtain ⟨zs, c, k, hz, hk⟩ := hs
    refine ⟨zs, c, k, ?_, hk⟩
    rw [hj, List.take_succ_cons, List.cons_append, continuation, if_pos hb]
    exact hz
  | case4 => cases h; exact absurd hm (Nat.lt_irrefl _)

/-- What breaks off within some bytes does so whatever follows them. -/
lemma front_broken_append {b m} {xs ys : List UInt8} (h : front b (xs ++ ys) = .broken m)
    (hm : m < 1 + xs.length) (zs : List UInt8) : front b (xs ++ zs) = .broken m := by
  obtain ⟨n, low, high, value, -, hb⟩ | hb := front_cases b
  · rw [hb] at h ⊢
    exact continuation_broken_append h hm zs
  · rw [hb] at h ⊢
    exact h

/-- A front that is broken off is at least one byte. -/
lemma exists_succ_of_front_broken {b rest m} (h : front b rest = .broken m) : ∃ j, m = j + 1 := by
  obtain ⟨n, low, high, value, -, hb⟩ | hb := front_cases b
  · rw [hb] at h
    exact ⟨m - 1, (Nat.sub_add_cancel (le_of_continuation_broken h)).symm⟩
  · rw [hb] at h
    cases h
    exact ⟨0, rfl⟩

/-- The bytes of a character are not broken off. -/
lemma front_ne_broken {b bs} (c : Char) (h : String.utf8EncodeChar c <+: b :: bs) (m : Nat) :
    front b bs ≠ .broken m := by
  rw [front_eq_scalar_iff.2 ⟨rfl, h⟩]
  intro hm
  cases hm

/-- What cannot be read is a broken part. -/
lemma broken_of_front {b rest m} (h : front b rest = .broken m) :
    Broken ((b :: rest).take m) ((b :: rest).drop m) := by
  have hl := length_front_le b rest
  rw [h, Front.length] at hl
  have hp : ((b :: rest).take m).length = m := by
    rw [List.length_take, List.length_cons, Nat.min_eq_left hl]
  constructor
  case unreadable =>
    intro c hc
    rw [List.take_append_drop] at hc
    exact front_ne_broken c hc m h
  case nonempty =>
    obtain ⟨j, rfl⟩ := exists_succ_of_front_broken h
    exact List.cons_ne_nil _ _
  case started =>
    rw [hp]
    obtain ⟨n, low, high, value, -, hb⟩ | hb := front_cases b
    · obtain rfl | hm := Nat.eq_or_lt_of_le (le_of_continuation_broken ((hb rest).symm.trans h))
      · exact .inl rfl
      -- Some character starts with the part, as more bytes of the right range complete it.
      obtain ⟨zs, c, k, hz, hk⟩ := exists_completion ((hb rest).symm.trans h) hm
      obtain ⟨rfl, hc⟩ := front_eq_scalar_iff.1 ((hb _).trans hz)
      refine .inr ⟨c, List.prefix_of_prefix_length_le ?_ hc (by omega)⟩
      obtain ⟨j, rfl⟩ := exists_succ_of_front_broken h
      exact ⟨zs, rfl⟩
    · rw [hb] at h
      cases h
      exact .inl rfl
  case longest =>
    intro c q hq hr
    rw [List.take_append_drop] at hr
    rw [hp]
    apply Nat.le_of_not_lt
    intro hlt
    obtain ⟨ys, hy⟩ := hr
    obtain ⟨zs, hz⟩ := hq
    cases q with
    | nil => exact Nat.not_lt_zero m hlt
    | cons x q =>
      rw [List.cons_append, List.cons.injEq] at hy
      obtain ⟨rfl, rfl⟩ := hy
      refine front_ne_broken c ?_ m (front_broken_append h (by rw [Nat.add_comm]; exact hlt) zs)
      rw [← hz]
      exact List.prefix_rfl

/-- Decoding reads the encoded characters and replaces the broken parts. -/
theorem decoded_lossy (bs : List UInt8) : Decoded bs (lossy bs).toList := by
  induction hn : bs.length using Nat.strongRecOn generalizing bs with
  | ind n ih =>
    cases bs with
    | nil =>
      rw [toList_lossy_nil]
      exact .nil
    | cons b rest =>
      cases hf : front b rest with
      | scalar c k =>
        obtain ⟨-, more, hm⟩ := front_eq_scalar_iff.1 hf
        have hlt : more.length < n := by
          have := String.utf8EncodeChar_ne_nil (c := c)
          rw [← hn, ← hm, List.length_append]
          exact Nat.lt_add_of_pos_left (List.length_pos_iff.2 this)
        rw [← hm, toList_lossy_utf8EncodeChar_append]
        exact .char c (ih _ hlt more rfl)
      | broken k =>
        obtain ⟨j, rfl⟩ := exists_succ_of_front_broken hf
        have hlt : (rest.drop j).length < n := by
          rw [← hn, List.length_drop, List.length_cons]
          omega
        have hd := Decoded.broken (broken_of_front hf) (ih _ hlt _ rfl)
        rw [List.take_append_drop] at hd
        rw [toList_lossy_broken hf]
        exact hd

/-- Of two broken fronts of the same bytes neither is longer. -/
lemma Broken.length_le {p q bs ds : List UInt8} (hp : Broken p bs) (hq : Broken q ds)
    (h : p ++ bs = q ++ ds) : p.length ≤ q.length := by
  obtain h1 | ⟨c, hc⟩ := hp.started
  · rw [h1]
    exact List.length_pos_iff.2 hq.nonempty
  · exact hq.longest c p hc ⟨bs, h⟩

/-- A character in front and what follows are determined by the bytes. -/
lemma utf8EncodeChar_append_inj {c d : Char} {bs ds : List UInt8}
    (h : String.utf8EncodeChar c ++ bs = String.utf8EncodeChar d ++ ds) : c = d ∧ bs = ds := by
  have hl := toList_lossy_utf8EncodeChar_append c bs
  rw [h, toList_lossy_utf8EncodeChar_append, List.cons.injEq] at hl
  obtain ⟨rfl, -⟩ := hl
  exact ⟨rfl, List.append_cancel_left h⟩

/-- A byte list has one decoding. -/
theorem Decoded.unique {bs cs ds} (hc : Decoded bs cs) (hd : Decoded bs ds) : cs = ds := by
  induction hc generalizing ds with
  | nil =>
    generalize e : ([] : List UInt8) = xs at hd
    cases hd with
    | nil => rfl
    | char c _ => exact absurd (List.append_eq_nil_iff.1 e.symm).1 String.utf8EncodeChar_ne_nil
    | broken hb _ => exact absurd (List.append_eq_nil_iff.1 e.symm).1 hb.nonempty
  | @char bs cs c _ ih =>
    generalize e : String.utf8EncodeChar c ++ bs = xs at hd
    cases hd with
    | nil => exact absurd (List.append_eq_nil_iff.1 e).1 String.utf8EncodeChar_ne_nil
    | char d hd =>
      obtain ⟨rfl, rfl⟩ := utf8EncodeChar_append_inj e
      rw [ih hd]
    | broken hb hd => exact absurd ⟨bs, e⟩ (hb.unreadable c)
  | @broken p bs cs hb _ ih =>
    generalize e : p ++ bs = xs at hd
    cases hd with
    | nil => exact absurd (List.append_eq_nil_iff.1 e).1 hb.nonempty
    | char d hd => exact absurd ⟨_, e.symm⟩ (hb.unreadable d)
    | broken hb' hd =>
      -- Both are maximal, so they are the same bytes.
      have hl := Nat.le_antisymm (hb.length_le hb' e) (hb'.length_le hb e.symm)
      obtain ⟨rfl, rfl⟩ := List.append_inj e hl
      rw [ih hd]

/-! ### Characters below 128 -/

/-- The character of a byte has its number. -/
lemma toNat_ofUInt8 (b : UInt8) : (Char.ofUInt8 b).toNat = b.toNat := UInt8.toNat_toUInt32 b

/-- A byte below 128 stands in no encoding but that of its own character. -/
lemma mem_of_mem_bytes {b : UInt8} {s : String} (h : b ∈ bytes s) (hb : b.toNat ≤ 0x7F) :
    Char.ofUInt8 b ∈ s.toList := by
  obtain ⟨c, hc, hm⟩ := List.mem_flatMap.1 h
  obtain ⟨x, xs, he, hf⟩ := exists_form_utf8EncodeChar c
  rw [he] at hm
  obtain rfl | hm := List.mem_cons.1 hm
  · have hv : c.toNat = (Char.ofUInt8 b).toNat := by
      rw [hf.eq_of_le hb, toNat_ofUInt8]
    rwa [← Char.toNat_inj.1 hv]
  · have ht := (hf.tail_of_mem hm).1
    omega

/-- A character below 128 is decoded only where its byte stands. -/
lemma Decoded.mem_of_mem {b bs cs} (hd : Decoded bs cs) (hb : b.toNat ≤ 0x7F)
    (h : Char.ofUInt8 b ∈ cs) : b ∈ bs := by
  induction hd with
  | nil => cases h
  | char c _ ih =>
    obtain rfl | h := List.mem_cons.1 h
    · rw [utf8EncodeChar_ofUInt8 hb]
      exact List.mem_cons_self
    · exact List.mem_append_right _ (ih h)
  | broken _ _ ih =>
    obtain heq | h := List.mem_cons.1 h
    · have hv : b.toNat = 0xFFFD := by
        rw [← toNat_ofUInt8, heq]
        rfl
      omega
    · exact List.mem_append_right _ (ih h)

/-! ### Strict decoding -/

/-- A character pushed to a text is the first of what follows it. -/
lemma push_append_ofList (out : String) (c : Char) (cs : List Char) :
    out.push c ++ String.ofList cs = out ++ String.ofList (c :: cs) :=
  String.toList_inj.1 (by simp)

/-- Bytes are decoded strictly exactly where they encode some characters. -/
lemma decodeOnto?_eq_some_iff {out s : String} {bs : List UInt8} :
    decodeOnto? out bs = some s ↔ ∃ cs, bs = encode cs ∧ s = out ++ String.ofList cs := by
  fun_induction decodeOnto? out bs with
  | case1 out =>
    constructor
    · rintro ⟨⟩
      exact ⟨[], rfl, by simp⟩
    · rintro ⟨_ | ⟨c, cs⟩, hcs, rfl⟩
      · simp
      · exact absurd (List.append_eq_nil_iff.1 hcs.symm).1 String.utf8EncodeChar_ne_nil
  | case2 out b rest c n hf ih =>
    obtain ⟨hn, more, hm⟩ := front_eq_scalar_iff.1 hf
    -- What is dropped is what is left of the first character.
    have hd : rest.drop (n - 1) = more := by
      have hpos : 0 < n := hn ▸ List.length_pos_iff.2 String.utf8EncodeChar_ne_nil
      rw [← List.drop_succ_cons (a := b), Nat.sub_add_cancel hpos, ← hm, hn, List.drop_left]
    rw [ih, hd, ← hm]
    constructor
    · rintro ⟨cs, rfl, rfl⟩
      exact ⟨c :: cs, List.flatMap_cons.symm, push_append_ofList out c cs⟩
    · rintro ⟨_ | ⟨d, cs⟩, hcs, rfl⟩
      · exact absurd (List.append_eq_nil_iff.1 hcs).1 String.utf8EncodeChar_ne_nil
      · rw [encode, List.flatMap_cons] at hcs
        obtain ⟨rfl, rfl⟩ := utf8EncodeChar_append_inj hcs
        exact ⟨cs, rfl, (push_append_ofList out c cs).symm⟩
  | case3 out b rest n hf =>
    constructor
    · nofun
    · rintro ⟨_ | ⟨c, cs⟩, hcs, -⟩
      · cases hcs
      · exact absurd hf (front_ne_broken c ⟨encode cs, hcs.symm⟩ n)

/-- Decoding succeeds on the bytes of a text, and on nothing else. -/
theorem decode?_eq_some_iff {bs : List UInt8} {s : String} :
    decode? bs = some s ↔ bs = bytes s := by
  rw [decode?, decodeOnto?_eq_some_iff]
  constructor
  · rintro ⟨cs, rfl, rfl⟩
    simp [bytes]
  · rintro rfl
    exact ⟨s.toList, rfl, by simp⟩

/-- The first byte of a well-formed sequence announces its length. -/
lemma Form.announced_eq {b bs v} (h : Form b bs v) : announced b = bs.length + 1 := by
  simp only [announced, UInt8.le_iff_toNat_le, UInt8.reduceToNat]
  cases h with
  | one hb => rw [if_pos hb, List.length_nil]
  | two hb hb' _ =>
    rw [if_neg (by omega), if_pos (by omega)]
    rfl
  | three hb hb' _ _ _ _ =>
    rw [if_neg (by omega), if_neg (by omega), if_pos (by omega)]
    rfl
  | four hb hb' _ _ _ _ _ =>
    rw [if_neg (by omega), if_neg (by omega), if_neg (by omega), if_pos (by omega)]
    rfl

/-- A lead announces the length of the character it starts. -/
lemma announced_of_prefix {b : UInt8} {bs : List UInt8} {c : Char}
    (h : String.utf8EncodeChar c <+: b :: bs) :
    announced b = (String.utf8EncodeChar c).length := by
  obtain ⟨x, more, he, hf⟩ := exists_form_utf8EncodeChar c
  obtain ⟨t, ht⟩ := h
  rw [he, List.cons_append, List.cons.injEq] at ht
  rw [← ht.1, hf.announced_eq, he, List.length_cons]

/-- The character whose encoding stands in front is found: its first byte announces just as many
bytes as it has, and what is found where a byte announces too much or too little is ruled out by the
decoding. -/
theorem firstChar?_eq_some_iff {b : UInt8} {bs : List UInt8} {c : Char} :
    firstChar? b bs = some c ↔ String.utf8EncodeChar c <+: b :: bs := by
  constructor
  · intro h
    unfold firstChar? at h
    split at h
    · cases h
    · obtain ⟨s, hs, hc⟩ := Option.bind_eq_some_iff.1 h
      obtain ⟨cs, hcs⟩ := List.head?_eq_some_iff.1 hc
      rw [decode?_eq_some_iff, bytes, hcs, encode, List.flatMap_cons] at hs
      exact List.IsPrefix.trans ⟨_, hs.symm⟩ (List.take_prefix _ _)
  · intro h
    have hn := announced_of_prefix h
    have hl : ¬ (announced b = 0 ∨ bs.length + 1 < announced b) := by
      have hle := h.length_le
      rw [List.length_cons] at hle
      have hpos := List.length_pos_iff.2 (String.utf8EncodeChar_ne_nil (c := c))
      omega
    have hd : decode? (String.utf8EncodeChar c) = some c.toString :=
      decode?_eq_some_iff.2 (by simp [bytes, encode])
    rw [firstChar?, if_neg hl, hn, ← List.prefix_iff_eq_take.1 h, hd]
    simp

end Jack.Text.Utf8
