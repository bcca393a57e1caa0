/-!
# Buffering a byte source

A byte source gives its bytes one at a time and then ends, properly or by failing; both count as the
end. A buffer of a few cells stands in front of it: `fill` reads until the cells are full or the
source has ended, and `shift` moves all bytes up by one cell. What is left to read, in the buffer
and behind it, is `Buffer.rest`, and both operations are described by what they do to it.
-/

namespace Jack

/-- How a byte source ends. -/
inductive Ending where
  /-- After its last byte the source reports its end. -/
  | finished
  /-- After its last byte the source fails. -/
  | failed
  deriving DecidableEq, Repr

/-- The answer to one read. -/
inductive Delivery (α : Type) where
  /-- One byte, and the source after it. -/
  | byte (b : UInt8) (next : α)
  /-- Nothing more will come. -/
  | ended (how : Ending)

/-- A source of bytes. -/
structure ByteSource where
  /-- The bytes still to come. -/
  bytes : List UInt8
  /-- What comes after them. -/
  ending : Ending := .finished
  deriving Repr

namespace ByteSource

/-- Asks for the next byte. -/
def read (s : ByteSource) : Delivery ByteSource :=
  match s.bytes with
  | [] => .ended s.ending
  | b :: rest => .byte b { s with bytes := rest }

/-- The source that fails after the first `n` bytes. -/
def failingAfter (n : Nat) (bs : List UInt8) : ByteSource := ⟨bs.take n, .failed⟩

/-- A source that has ended holds no bytes. -/
theorem bytes_eq_nil_of_read {s : ByteSource} {how : Ending} (h : s.read = .ended how) :
    s.bytes = [] := by
  obtain ⟨_ | ⟨b, bs⟩, ending⟩ := s
  · rfl
  · cases h

/-- A byte that is read is the first of the bytes of the source. -/
theorem bytes_eq_cons_of_read {s next : ByteSource} {b : UInt8} (h : s.read = .byte b next) :
    s.bytes = b :: next.bytes := by
  obtain ⟨_ | ⟨c, bs⟩, ending⟩ := s
  · cases h
  · cases h
    rfl

end ByteSource

/-- The number of cells of a buffer. -/
def lookAhead : Nat := 4

/-- Cells in front of a byte source. The first `filled` of them hold the next bytes; the others hold
what is left in them from earlier bytes. -/
structure Buffer where
  cells : Vector UInt8 lookAhead
  filled : Nat
  /-- Has the source ended? Then it is not asked again. -/
  ended : Bool
  /-- Where further bytes come from. -/
  source : ByteSource
  filled_le : filled ≤ lookAhead
  source_of_ended : ended = true → source.bytes = []

namespace Buffer

/-- The bytes in the buffer. -/
def held (b : Buffer) : List UInt8 := b.cells.toList.take b.filled

/-- All bytes left to read. -/
def rest (b : Buffer) : List UInt8 := b.held ++ b.source.bytes

/-- A buffer that holds nothing yet. -/
def ofSource (source : ByteSource) : Buffer where
  cells := .replicate lookAhead 0
  filled := 0
  ended := false
  source := source
  filled_le := Nat.zero_le _
  source_of_ended := nofun

/-- Reads on until all cells hold bytes or the source has ended. -/
def fill (b : Buffer) : Buffer :=
  if h : b.ended = false ∧ b.filled < lookAhead then
    match hr : b.source.read with
    | .ended _ =>
      { b with
        ended := true
        source_of_ended := fun _ => ByteSource.bytes_eq_nil_of_read hr }
    | .byte x next =>
      fill
        { b with
          cells := b.cells.set b.filled x h.2
          filled := b.filled + 1
          source := next
          filled_le := h.2
          source_of_ended := fun he => Bool.noConfusion (h.1.symm.trans he) }
  else b
termination_by lookAhead - b.filled

/-- Drops the first byte and moves the others up by one cell. -/
def shift (b : Buffer) : Buffer :=
  { b with
    cells := .ofFn fun i =>
      if h : i.val + 1 < b.filled then
        have := Nat.lt_of_lt_of_le h b.filled_le
        b.cells[i.val + 1]
      else b.cells[i]
    filled := b.filled - 1
    filled_le := Nat.le_trans (Nat.sub_le _ _) b.filled_le }

/-- A buffer holds as many bytes as it counts. -/
theorem length_held (b : Buffer) : b.held.length = b.filled := by
  rw [held, List.length_take, Vector.length_toList, Nat.min_eq_left b.filled_le]

/-- The bytes held are those of the filled cells. -/
theorem getElem?_held (b : Buffer) {n : Nat} (h : n < b.filled) : b.held[n]? = b.cells[n]? := by
  rw [held, List.getElem?_take_of_lt h, Vector.getElem?_toList]

/-- Filling moves bytes from the source into the buffer, and loses none. -/
@[simp] theorem rest_fill (b : Buffer) : b.fill.rest = b.rest := by
  fun_induction fill b with
  | case1 => rfl
  | case2 b h x next hr ih =>
    rw [ih]
    have hx : (b.cells.set b.filled x h.2).toList.take (b.filled + 1) = b.held ++ [x] := by
      have hl : b.filled < b.cells.toList.length := by
        rw [Vector.length_toList]
        exact h.2
      rw [Vector.toList_set, List.take_add_one, List.take_set_of_le (Nat.le_refl _),
        List.getElem?_set_self hl]
      rfl
    show (b.cells.set b.filled x h.2).toList.take (b.filled + 1) ++ next.bytes = b.rest
    rw [hx, rest, ByteSource.bytes_eq_cons_of_read hr, List.append_assoc, List.singleton_append]
  | case3 => rfl

/-- A filled buffer is full, or the source has nothing left. -/
theorem full_fill (b : Buffer) : b.fill.filled = lookAhead ∨ b.fill.source.bytes = [] := by
  fun_induction fill b with
  | case1 b h how hr => exact .inr (ByteSource.bytes_eq_nil_of_read hr)
  | case2 b h x next hr ih => exact ih
  | case3 b h =>
    cases he : b.ended with
    | true => exact .inr (b.source_of_ended he)
    | false =>
      have hn : ¬ b.filled < lookAhead := fun hl => h ⟨he, hl⟩
      exact .inl (Nat.le_antisymm b.filled_le (Nat.le_of_not_lt hn))

/-- Shifting counts one byte less. -/
@[simp] theorem shift_filled (b : Buffer) : b.shift.filled = b.filled - 1 := rfl

/-- Shifting reads nothing. -/
@[simp] theorem shift_source (b : Buffer) : b.shift.source = b.source := rfl

/-- Shifting drops the first byte held. -/
theorem held_shift (b : Buffer) : b.shift.held = b.held.tail := by
  apply List.ext_getElem?
  intro i
  rw [List.getElem?_tail]
  by_cases h : i + 1 < b.filled
  · have hi : i < b.shift.filled := Nat.lt_sub_of_add_lt h
    have hc : i + 1 < lookAhead := Nat.lt_of_lt_of_le h b.filled_le
    rw [getElem?_held _ hi, getElem?_held b h, Vector.getElem?_eq_getElem hc,
      Vector.getElem?_eq_getElem (Nat.lt_of_succ_lt hc)]
    simp [shift, h]
  · have hs : b.shift.held.length ≤ i := by
      rw [length_held, shift_filled]
      omega
    have ht : b.held.length ≤ i + 1 := by
      rw [length_held]
      omega
    rw [List.getElem?_eq_none hs, List.getElem?_eq_none ht]

end Buffer

end Jack
