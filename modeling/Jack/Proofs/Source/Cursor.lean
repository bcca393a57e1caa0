import Jack.Proofs.Source.Window

/-!
# Reading by index

A cursor stands at an offset of a source all of whose bytes are at hand, and looks ahead by indexing
them. A window on the same source shows the bytes that the cursor finds (`Window.Sees`), however the
two have been moved, and whether the source ended or failed behind its last byte.
-/

namespace Jack

/-- A place in a source of which all bytes are at hand. -/
structure Cursor where
  source : List UInt8
  pos : Pos

namespace Cursor

/-- The start of a source. -/
def start (source : List UInt8) : Cursor := ⟨source, .origin⟩

/-- The byte `n` places ahead. -/
def byteAt? (c : Cursor) (n : Nat) : Option UInt8 := c.source[c.pos.offset + n]?

/-- The bytes from the cursor on. -/
def rest (c : Cursor) : List UInt8 := c.source.drop c.pos.offset

/-- The cursor behind the bytes `bs`, which stand in front of it. -/
def after (c : Cursor) (bs : List UInt8) : Cursor := { c with pos := bs.foldl Pos.advance c.pos }

/-- The cursor behind the next `n` bytes. -/
def skip (n : Nat) (c : Cursor) : Cursor := c.after (c.rest.take n)

/-- The longest run of bytes in `p`, and the cursor behind it. -/
def takeWhile (p : UInt8 → Bool) (c : Cursor) : List UInt8 × Cursor :=
  (c.rest.takeWhile p, c.after (c.rest.takeWhile p))

/-- The next character and the cursor behind it, the replacement character for a byte where none
starts. -/
def nextChar? (c : Cursor) : Option (Char × Cursor) :=
  match c.rest with
  | [] => none
  | b :: bs =>
    match Text.Utf8.firstChar? b bs with
    | some d => some (d, c.skip (Text.Utf8.announced b))
    | none => some (Text.Utf8.replacement, c.skip 1)

/-- The bytes ahead of a cursor are those of its rest. -/
lemma byteAt?_eq (c : Cursor) (n : Nat) : c.byteAt? n = c.rest[n]? := by
  rw [byteAt?, rest, List.getElem?_drop]

/-- Behind some bytes stands what follows them. -/
lemma rest_after {c : Cursor} {bs more : List UInt8} (h : c.rest = bs ++ more) :
    (c.after bs).rest = more := by
  rw [after, rest, Window.foldl_advance_offset, ← List.drop_drop]
  show c.rest.drop bs.length = more
  rw [h, List.drop_left]

/-- Skipping `n` bytes leaves that many less. -/
lemma length_rest_skip (n : Nat) (c : Cursor) : (c.skip n).rest.length = c.rest.length - n := by
  rw [skip, rest_after (List.take_append_drop n c.rest).symm, List.length_drop]

end Cursor

namespace Window

variable {w v : Window} {c : Cursor} {bs : List UInt8}

/-- A window and a cursor that stand at the same place, with the same bytes ahead. -/
structure Sees (w : Window) (c : Cursor) : Prop where
  rest_eq : w.rest = c.rest
  pos_eq : w.pos = c.pos

/-- A window and a cursor gave the same answer, and still stand at the same place. -/
structure Agrees {α : Type} (out : α × Window) (out' : α × Cursor) : Prop where
  answer : out.1 = out'.1
  sees : out.2.Sees out'.2

/-- At the start a window sees what the cursor does. -/
lemma sees_start (source : ByteSource) : (ofSource source).Sees (.start source.bytes) :=
  ⟨rest_ofSource source, rfl⟩

/-- Every place is seen by some window. -/
lemma exists_sees (c : Cursor) : ∃ w : Window, w.Sees c :=
  ⟨ofBuffer (.ofSource ⟨c.rest, .finished⟩) c.pos, rest_ofBuffer _ _, rfl⟩

/-- Passing `n` bytes passes all that are left, if these are fewer. -/
lemma passes_skip_take (n : Nat) (w : Window) : w.Passes (w.rest.take n) (w.skip n) := by
  induction n generalizing w with
  | zero => exact .refl w
  | succ n ih =>
    cases hr : w.rest with
    | nil =>
      have ha : w.advance = w := by rw [advance, peek?_eq_none_iff.2 hr]
      have h := ih w
      rw [hr, List.take_nil] at h
      rw [skip, ha]
      exact h
    | cons b r =>
      have h := ih w.advance
      rw [rest_advance, hr] at h
      exact (passes_advance hr).trans h

namespace Sees

/-- Within the look-ahead a window sees the bytes of the cursor. -/
lemma peekAt? (h : w.Sees c) {n : Nat} (hn : n < lookAhead) : w.peekAt? n = c.byteAt? n := by
  rw [peekAt?_eq w hn, h.rest_eq, Cursor.byteAt?_eq]

/-- A window sees the byte at the cursor. -/
lemma peek? (h : w.Sees c) : w.peek? = c.byteAt? 0 := h.peekAt? (by decide)

/-- A window that passes bytes is followed by the cursor behind them. -/
lemma after (h : w.Sees c) (hp : w.Passes bs v) : v.Sees (c.after bs) := by
  constructor
  · rw [Cursor.rest_after (h.rest_eq.symm.trans hp.rest_eq)]
  · rw [hp.pos_eq, h.pos_eq]
    rfl

/-- Skipping keeps a window at the cursor. -/
lemma skip (h : w.Sees c) (n : Nat) : (w.skip n).Sees (c.skip n) := by
  have hp := h.after (passes_skip_take n w)
  rwa [h.rest_eq] at hp

/-- A step keeps a window at the cursor. -/
lemma advance (h : w.Sees c) : w.advance.Sees (c.skip 1) := h.skip 1

/-- A window and a cursor take the same bytes. -/
lemma takeWhile (h : w.Sees c) (p : UInt8 → Bool) :
    Agrees (w.takeWhile p) (c.takeWhile p) := by
  have hp := h.after (passes_takeWhile p w)
  rw [h.rest_eq] at hp
  exact ⟨by rw [takeWhile_fst, h.rest_eq]; rfl, hp⟩

/-- A window shows enough to find the character that the cursor finds. -/
lemma nextChar? (h : w.Sees c) {b : UInt8} {r : List UInt8} (hr : c.rest = b :: r) :
    ∃ d v u, w.nextChar? = some (d, v) ∧ c.nextChar? = some (d, u) ∧ v.Sees u := by
  have hw := h.rest_eq.trans hr
  obtain ⟨d, v, hd, hp⟩ | ⟨hd, hn⟩ := nextChar?_cases hw
  · have hpre : String.utf8EncodeChar d <+: b :: r := ⟨v.rest, hp.rest_eq.symm.trans hw⟩
    refine ⟨d, v, c.skip (Text.Utf8.announced b), hd, ?_, ?_⟩
    · rw [Cursor.nextChar?, hr]
      simp only [Text.Utf8.firstChar?_eq_some_iff.2 hpre]
    · rw [Cursor.skip, Text.Utf8.announced_of_prefix hpre, hr, ← List.prefix_iff_eq_take.1 hpre]
      exact h.after hp
  · have hf : Text.Utf8.firstChar? b r = none := by
      rw [Option.eq_none_iff_forall_ne_some]
      intro d hd
      rw [hw] at hn
      exact hn d (Text.Utf8.firstChar?_eq_some_iff.1 hd)
    refine ⟨Text.Utf8.replacement, w.advance, c.skip 1, hd, ?_, h.advance⟩
    rw [Cursor.nextChar?, hr]
    simp only [hf]

end Sees

/-! ### Moves -/

/-- A move of a window, past a byte or past a character. -/
inductive Motion where
  | byte
  | char

/-- The window after a move; at the end it stays. -/
def moved (w : Window) : Motion → Window
  | .byte => w.advance
  | .char => match w.nextChar? with
    | some (_, after) => after
    | none => w

/-- A motion passes some bytes. -/
lemma exists_passes_moved (w : Window) (m : Motion) : ∃ bs, w.Passes bs (w.moved m) := by
  cases m with
  | byte => exact ⟨_, passes_skip_take 1 w⟩
  | char =>
    unfold moved
    cases hr : w.rest with
    | nil =>
      have hn : w.nextChar? = none := by
        rw [nextChar?, held_eq_take, hr, List.take_nil]
      rw [hn]
      exact ⟨[], .refl w⟩
    | cons b r =>
      obtain ⟨c, after, hc, hp⟩ | ⟨hc, -⟩ := nextChar?_cases hr
      · rw [hc]
        exact ⟨_, hp⟩
      · rw [hc]
        exact ⟨_, passes_advance hr⟩

/-- Motions one after another pass some bytes. -/
lemma exists_passes_moves (w : Window) (ms : List Motion) :
    ∃ bs, w.Passes bs (ms.foldl moved w) := by
  induction ms generalizing w with
  | nil => exact ⟨[], .refl w⟩
  | cons m ms ih =>
    obtain ⟨bs, hb⟩ := exists_passes_moved w m
    obtain ⟨cs, hc⟩ := ih (w.moved m)
    exact ⟨bs ++ cs, hb.trans hc⟩

/-- A window that shows a source at its offset: the bytes in the buffer, as many as there is room
for, and those behind it are the rest of the source, and looking ahead indexes the source. -/
structure Shows (w : Window) (source : List UInt8) : Prop where
  offset_le : w.pos.offset ≤ source.length
  held_append : w.held ++ w.source.bytes = source.drop w.pos.offset
  length_held : w.held.length = min lookAhead (source.length - w.pos.offset)
  peek? : w.peek? = source[w.pos.offset]?
  peekAt? : ∀ n < lookAhead, w.peekAt? n = source[w.pos.offset + n]?

/-- Whatever bytes of its source a window has passed, it shows what follows them. -/
lemma Passes.shows {source : ByteSource} (h : (ofSource source).Passes bs w) :
    w.Shows source.bytes := by
  have hs : source.bytes = bs ++ w.rest := (rest_ofSource source).symm.trans h.rest_eq
  have ho : w.pos.offset = bs.length := by
    rw [h.offset_eq]
    exact Nat.zero_add _
  have hrest : w.rest = source.bytes.drop w.pos.offset := by rw [hs, ho, List.drop_left]
  have hpeek : ∀ n < lookAhead, w.peekAt? n = source.bytes[w.pos.offset + n]? := by
    intro n hn
    rw [peekAt?_eq w hn, hrest, List.getElem?_drop]
  refine ⟨?_, hrest, ?_, hpeek 0 (by decide), hpeek⟩
  · rw [hs, ho, List.length_append]
    exact Nat.le_add_right _ _
  · rw [held_eq_take, List.length_take, hrest, List.length_drop]

end Window

end Jack
