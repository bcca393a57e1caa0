import Jack.Source.Window
import Jack.Proofs.Text.Utf8

/-!
# Moving a window

A window moves past bytes from the front of what is left, and its position moves with them one byte
at a time. Every reader is described by the bytes it passes.
-/

namespace Jack.Window

/-- `after` stands behind the bytes `bs`, which `w` had in front. -/
structure Passes (w : Window) (bs : List UInt8) (after : Window) : Prop where
  rest_eq : w.rest = bs ++ after.rest
  pos_eq : after.pos = bs.foldl Pos.advance w.pos

variable {w v u : Window} {bs cs : List UInt8}

/-- Staying passes nothing. -/
lemma Passes.refl (w : Window) : w.Passes [] w := ⟨rfl, rfl⟩

/-- Passing some bytes and then others passes both. -/
lemma Passes.trans (h : w.Passes bs v) (g : v.Passes cs u) : w.Passes (bs ++ cs) u := by
  constructor
  · rw [h.rest_eq, g.rest_eq, List.append_assoc]
  · rw [g.pos_eq, h.pos_eq, List.foldl_append]

/-- A position counts the bytes it has passed. -/
lemma foldl_advance_offset (bs : List UInt8) (p : Pos) :
    (bs.foldl Pos.advance p).offset = p.offset + bs.length := by
  induction bs generalizing p with
  | nil => rfl
  | cons b bs ih =>
    rw [List.foldl_cons, ih, Pos.advance_offset, List.length_cons]
    omega

/-- A window that has passed bytes stands that many bytes further on. -/
lemma Passes.offset_eq (h : w.Passes bs v) : v.pos.offset = w.pos.offset + bs.length := by
  rw [h.pos_eq, foldl_advance_offset]

/-- Behind the bytes passed stands what follows them. -/
lemma Passes.rest_of_eq {rest : List UInt8} (h : w.Passes bs v) (hr : w.rest = bs ++ rest) :
    v.rest = rest :=
  List.append_cancel_left (h.rest_eq.symm.trans hr)

/-- The bytes passed are what stood before the rest. -/
lemma Passes.eq_of_rest (h : w.Passes bs v) (hr : w.rest = cs ++ v.rest) : bs = cs :=
  List.append_cancel_right (h.rest_eq.symm.trans hr)

/-- The bytes in view are the first of those left. -/
lemma held_eq_take (w : Window) : w.held = w.rest.take lookAhead := by
  rw [rest, Buffer.rest]
  obtain hf | hs := w.full
  · rw [← hf, ← w.length_held, List.take_left]
  · have hl : w.held.length ≤ lookAhead := by
      rw [w.length_held]
      exact w.filled_le
    rw [hs, List.append_nil, List.take_of_length_le hl]

/-- Within the look-ahead, peeking sees the bytes of the rest. -/
lemma peekAt?_eq (w : Window) {n : Nat} (h : n < lookAhead) : w.peekAt? n = w.rest[n]? := by
  rw [peekAt?_eq_held, held_eq_take, List.getElem?_take_of_lt h]

/-- There is no byte ahead exactly at the end. -/
lemma peek?_eq_none_iff : w.peek? = none ↔ w.rest = [] := by
  rw [peek?_eq, List.head?_eq_none_iff]

/-- The byte ahead is the first of the rest. -/
lemma exists_rest_of_peek? {b : UInt8} (h : w.peek? = some b) : ∃ r, w.rest = b :: r := by
  rw [peek?_eq] at h
  exact List.head?_eq_some_iff.1 h

/-- Looking at two bytes tells what is left to start with. -/
lemma peek_two_iff {b x y : UInt8} (h : w.peek? = some b) :
    (b == x && w.peekAt? 1 == some y) = true ↔ [x, y] <+: w.rest := by
  obtain ⟨r, hr⟩ := exists_rest_of_peek? h
  rw [peekAt?_eq w (by decide), hr, List.getElem?_cons_succ, Bool.and_eq_true, beq_iff_eq,
    beq_iff_eq, List.cons_prefix_cons, eq_comm]
  cases r with
  | nil => simp
  | cons c r => simp [List.cons_prefix_cons, eq_comm]

/-- A step passes one byte. -/
lemma passes_advance {b : UInt8} {r : List UInt8} (h : w.rest = b :: r) :
    w.Passes [b] w.advance := by
  have hb : w.peek? = some b := by rw [peek?_eq, h, List.head?_cons]
  constructor
  · rw [rest_advance, h]
    rfl
  · rw [advance_of_peek? hb]
    rfl

/-- Skipping as many bytes as stand ahead passes them. -/
lemma passes_skip (bs : List UInt8) (h : bs <+: w.rest) : w.Passes bs (w.skip bs.length) := by
  obtain ⟨cs, h⟩ := h
  replace h := h.symm
  induction bs generalizing w with
  | nil => exact .refl w
  | cons b bs ih =>
    have ha := passes_advance h
    have hr : w.advance.rest = bs ++ cs := by rw [rest_advance, h]; rfl
    exact ha.trans (ih hr)

/-- Taking bytes passes those taken. -/
lemma passes_takeWhileOnto (p : UInt8 → Bool) (w : Window) (out : Array UInt8) :
    w.Passes (w.rest.takeWhile p) (takeWhileOnto p w out).2 := by
  fun_induction takeWhileOnto p w out with
  | case1 w out h =>
    rw [peek?_eq_none_iff.1 h]
    exact .refl w
  | case2 w out b h hp ih =>
    obtain ⟨r, hr⟩ := exists_rest_of_peek? h
    have ha := passes_advance hr
    rw [rest_advance, hr] at ih
    rw [hr, List.takeWhile_cons_of_pos hp]
    exact ha.trans ih
  | case3 w out b h hp =>
    obtain ⟨r, hr⟩ := exists_rest_of_peek? h
    rw [hr, List.takeWhile_cons_of_neg hp]
    exact .refl w

/-- A run of bytes is passed as a whole. -/
lemma passes_takeWhile (p : UInt8 → Bool) (w : Window) :
    w.Passes (w.rest.takeWhile p) (w.takeWhile p).2 :=
  passes_takeWhileOnto p w #[]

/-- A run of bytes stops before the first byte outside its class. -/
lemma eq_false_of_mem_head?_takeWhile {p : UInt8 → Bool} {b : UInt8}
    (h : b ∈ (w.takeWhile p).2.rest.head?) : p b = false := by
  have hd := List.head?_dropWhile_not p w.rest
  rw [← rest_takeWhile, Option.mem_def.1 h] at hd
  exact hd

/-- A character is in view as a whole, if it is left in front. -/
lemma utf8EncodeChar_prefix_held_iff {c : Char} :
    String.utf8EncodeChar c <+: w.held ↔ String.utf8EncodeChar c <+: w.rest := by
  have hl : (String.utf8EncodeChar c).length ≤ lookAhead := by
    rw [String.length_utf8EncodeChar]
    exact c.utf8Size_le_four
  rw [held_eq_take, List.prefix_take_iff]
  exact and_iff_left hl

/-- The next character is the one whose encoding is left in front; a byte where there is none is
passed alone. -/
lemma nextChar?_cases {b : UInt8} {r : List UInt8} (h : w.rest = b :: r) :
    (∃ c after, w.nextChar? = some (c, after) ∧ w.Passes (String.utf8EncodeChar c) after) ∨
    (w.nextChar? = some (Text.Utf8.replacement, w.advance) ∧
      ∀ c, ¬ String.utf8EncodeChar c <+: w.rest) := by
  unfold nextChar?
  cases hh : w.held with
  | nil =>
    rw [rest_eq_nil_of_held hh] at h
    cases h
  | cons x held =>
    simp only
    cases hc : Text.Utf8.firstChar? x held with
    | some c =>
      have hp := Text.Utf8.firstChar?_eq_some_iff.1 hc
      have hn := Text.Utf8.announced_of_prefix hp
      -- Four bytes are held, and no character has more.
      rw [← hh, utf8EncodeChar_prefix_held_iff] at hp
      rw [hn]
      exact .inl ⟨c, _, rfl, passes_skip _ hp⟩
    | none =>
      refine .inr ⟨rfl, fun c hp => ?_⟩
      rw [← utf8EncodeChar_prefix_held_iff, hh, ← Text.Utf8.firstChar?_eq_some_iff, hc] at hp
      cases hp

end Jack.Window
