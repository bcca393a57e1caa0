import Jack.Source.Buffer
import Jack.Source.Span
import Jack.Text.Utf8

/-!
# Reading a source through a window

A window is a buffer that is kept filled, with the position of its first byte. It shows the next
four bytes of a source, fewer only near the end, which is enough to see one character. Every
operation is described by what it does to `rest`, all bytes left to read.
-/

namespace Jack

/-- A filled buffer in front of a byte source, and the position of the first byte in it. -/
structure Window extends Buffer where
  /-- The position of the first byte in view. -/
  pos : Pos
  /-- The view is full, or all that is left is in view. -/
  full : filled = lookAhead ∨ source.bytes = []

namespace Window

/-- Fills the view up. -/
def ofBuffer (b : Buffer) (pos : Pos) : Window := { b.fill with pos, full := b.full_fill }

/-- The window at the start of a source. -/
def ofSource (source : ByteSource) : Window := ofBuffer (.ofSource source) .origin

/-- All bytes left to read. -/
def rest (w : Window) : List UInt8 := w.toBuffer.rest

/-- A window on a buffer stands before the bytes of the buffer. -/
@[simp] theorem rest_ofBuffer (b : Buffer) (pos : Pos) : (ofBuffer b pos).rest = b.rest :=
  b.rest_fill

/-- A window on a source stands before the bytes of the source. -/
@[simp] theorem rest_ofSource (source : ByteSource) : (ofSource source).rest = source.bytes :=
  rest_ofBuffer _ _

/-- The byte `n` places ahead, for `n` below four. -/
def peekAt? (w : Window) (n : Nat) : Option UInt8 :=
  if n < w.filled then w.cells[n]? else none

/-- The next byte. -/
def peek? (w : Window) : Option UInt8 := w.peekAt? 0

/-- The window after the next byte; at the end it stays. -/
def advance (w : Window) : Window :=
  match w.peek? with
  | none => w
  | some b => ofBuffer w.shift (w.pos.advance b)

/-- The window after `n` more bytes. -/
def skip : Nat → Window → Window
  | 0, w => w
  | n + 1, w => skip n w.advance

/-- Peeking reads the bytes held. -/
theorem peekAt?_eq_held (w : Window) (n : Nat) : w.peekAt? n = w.held[n]? := by
  unfold peekAt?
  split
  · next h => exact (w.getElem?_held h).symm
  · next h =>
    have hl : w.held.length ≤ n := by
      rw [w.length_held]
      exact Nat.le_of_not_lt h
    rw [List.getElem?_eq_none hl]

/-- An empty view means that nothing is left. -/
theorem rest_eq_nil_of_held {w : Window} (h : w.held = []) : w.rest = [] := by
  have hf : w.filled = 0 := by rw [← w.length_held, h, List.length_nil]
  obtain hl | hs := w.full
  · exact absurd (hl.symm.trans hf) (by decide)
  · rw [rest, Buffer.rest, h, hs, List.append_nil]

/-- The next byte is the first of all that is left. -/
theorem peek?_eq (w : Window) : w.peek? = w.rest.head? := by
  rw [peek?, peekAt?_eq_held]
  cases h : w.held with
  | nil => rw [rest_eq_nil_of_held h]; rfl
  | cons b held => rw [rest, Buffer.rest, h]; rfl

/-- With a byte ahead, a step shifts the buffer and counts that byte. -/
theorem advance_of_peek? {w : Window} {b : UInt8} (h : w.peek? = some b) :
    w.advance = ofBuffer w.shift (w.pos.advance b) := by
  rw [advance, h]

/-- A step leaves one byte less. -/
@[simp] theorem rest_advance (w : Window) : w.advance.rest = w.rest.tail := by
  cases h : w.peek? with
  | none =>
    rw [advance, h]
    rw [peek?_eq, List.head?_eq_none_iff] at h
    simp [h]
  | some b =>
    rw [advance_of_peek? h, rest_ofBuffer, Buffer.rest, Buffer.held_shift, Buffer.shift_source]
    cases hh : w.held with
    | nil =>
      rw [peek?_eq, rest_eq_nil_of_held hh] at h
      cases h
    | cons c held => rw [rest, Buffer.rest, hh]; rfl

/-- Skipping `n` bytes drops them from the rest. -/
@[simp] theorem rest_skip (n : Nat) (w : Window) : (w.skip n).rest = w.rest.drop n := by
  induction n generalizing w with
  | zero => rfl
  | succ n ih => simp [skip, ih]

/-- Moving past a byte leaves less to read. -/
theorem length_rest_advance_lt {w : Window} {b : UInt8} (h : w.peek? = some b) :
    w.advance.rest.length < w.rest.length := by
  rw [peek?_eq] at h
  cases hr : w.rest with
  | nil => simp [hr] at h
  | cons c cs => simp [hr]

/-- The next character and the window after it. Where no well-formed character starts, it is the
replacement character for one byte; at the end there is none. -/
def nextChar? (w : Window) : Option (Char × Window) :=
  match w.held with
  | [] => none
  | b :: held =>
    match Text.Utf8.firstChar? b held with
    | some c => some (c, w.skip (Text.Utf8.announced b))
    | none => some (Text.Utf8.replacement, w.advance)

/-- Moves past the longest run of bytes in `p`, adding them to `out`. -/
def takeWhileOnto (p : UInt8 → Bool) (w : Window) (out : Array UInt8) : Array UInt8 × Window :=
  match _h : w.peek? with
  | none => (out, w)
  | some b => if p b then takeWhileOnto p w.advance (out.push b) else (out, w)
termination_by w.rest.length
decreasing_by exact length_rest_advance_lt _h

/-- The longest run of bytes in `p`, and the window after it. -/
def takeWhile (p : UInt8 → Bool) (w : Window) : List UInt8 × Window :=
  let taken := takeWhileOnto p w #[]
  (taken.1.toList, taken.2)

/-- The bytes taken are put behind those taken before. -/
theorem takeWhileOnto_fst (p : UInt8 → Bool) (w : Window) (out : Array UInt8) :
    (takeWhileOnto p w out).1.toList = out.toList ++ w.rest.takeWhile p := by
  fun_induction takeWhileOnto p w out with
  | case1 w out h =>
    rw [peek?_eq, List.head?_eq_none_iff] at h
    simp [h]
  | case2 w out b h hp ih =>
    rw [peek?_eq] at h
    obtain ⟨r, hr⟩ := List.head?_eq_some_iff.1 h
    simp [ih, hr, hp]
  | case3 w out b h hp =>
    rw [peek?_eq] at h
    obtain ⟨r, hr⟩ := List.head?_eq_some_iff.1 h
    simp [hr, hp]

/-- What is not taken is left. -/
theorem rest_takeWhileOnto (p : UInt8 → Bool) (w : Window) (out : Array UInt8) :
    (takeWhileOnto p w out).2.rest = w.rest.dropWhile p := by
  fun_induction takeWhileOnto p w out with
  | case1 w out h =>
    rw [peek?_eq, List.head?_eq_none_iff] at h
    simp [h]
  | case2 w out b h hp ih =>
    rw [peek?_eq] at h
    obtain ⟨r, hr⟩ := List.head?_eq_some_iff.1 h
    simp [ih, hr, hp]
  | case3 w out b h hp =>
    rw [peek?_eq] at h
    obtain ⟨r, hr⟩ := List.head?_eq_some_iff.1 h
    simp [hr, hp]

/-- The bytes taken are the longest run at the front of what is left. -/
@[simp] theorem takeWhile_fst (p : UInt8 → Bool) (w : Window) :
    (w.takeWhile p).1 = w.rest.takeWhile p := by
  simp [takeWhile, takeWhileOnto_fst]

/-- The bytes taken are gone from the rest. -/
@[simp] theorem rest_takeWhile (p : UInt8 → Bool) (w : Window) :
    (w.takeWhile p).2.rest = w.rest.dropWhile p :=
  rest_takeWhileOnto p w #[]

/-- Taking bytes leaves no more than there were. -/
theorem length_rest_takeWhile_le (p : UInt8 → Bool) (w : Window) :
    (w.takeWhile p).2.rest.length ≤ w.rest.length := by
  rw [rest_takeWhile]
  exact (List.dropWhile_sublist p).length_le

/-- Moving past bytes leaves less to read, unless nothing is left. -/
theorem length_rest_skip_lt {w : Window} {b : UInt8} (h : w.peek? = some b) (n : Nat) :
    (w.skip (n + 1)).rest.length < w.rest.length := by
  rw [peek?_eq] at h
  obtain ⟨r, hr⟩ := List.head?_eq_some_iff.1 h
  rw [rest_skip, hr, List.drop_succ_cons, List.length_drop, List.length_cons]
  omega

/-- A run that starts in its class takes bytes. -/
theorem length_rest_takeWhile_lt {p : UInt8 → Bool} {w : Window} {b : UInt8}
    (h : w.peek? = some b) (hp : p b = true) :
    (w.takeWhile p).2.rest.length < w.rest.length := by
  rw [peek?_eq] at h
  obtain ⟨r, hr⟩ := List.head?_eq_some_iff.1 h
  rw [rest_takeWhile, hr, List.dropWhile_cons_of_pos hp, List.length_cons]
  exact Nat.lt_succ_of_le (List.dropWhile_sublist p).length_le

/-- A character takes bytes. -/
theorem length_rest_nextChar?_lt {w after : Window} {c : Char}
    (h : w.nextChar? = some (c, after)) : after.rest.length < w.rest.length := by
  unfold nextChar? at h
  split at h
  · simp at h
  · next b held hh =>
    have hb : w.peek? = some b := by rw [peek?, peekAt?_eq_held, hh]; rfl
    split at h
    · next d hf =>
      simp only [Option.some.injEq, Prod.mk.injEq] at h
      obtain ⟨_, rfl⟩ := h
      obtain ⟨n, hn⟩ := Nat.exists_eq_succ_of_ne_zero (Text.Utf8.announced_ne_zero hf)
      rw [hn]
      exact length_rest_skip_lt hb n
    · simp only [Option.some.injEq, Prod.mk.injEq] at h
      obtain ⟨_, rfl⟩ := h
      exact length_rest_advance_lt hb

end Window

end Jack
