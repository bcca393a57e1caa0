import Jack.Proofs.Token.Layout
import Jack.Proofs.Vm.Text

/-!
# The line around an offset

Positions count the line feeds among the bytes of a text, while a line is found among the lines of
its characters. Both count alike, since the byte of a line feed stands in no other character: the
line with the number of an offset is the one that the offset stands in (`lineAround_lineAt`).
-/

namespace Jack.Text

open Utf8

/-- How a line is shown that has the given text behind it. A carriage return before a line feed
belongs to the ending. -/
inductive LineShown : List Char → List Char → List Char → Prop where
  | last {line} :
    LineShown line [] line
  | feed {line after} :
    line.getLast? ≠ some '\r' →
    LineShown line ('\n' :: after) line
  | returnFeed {line after} :
    LineShown (line ++ ['\r']) ('\n' :: after) line

/-- A line of a text is shown: the stretch between two line feeds, or the ends of the text, that a
byte offset stands in. -/
def LineAround (text : List Char) (offset : Nat) (shown : List Char) : Prop :=
  ∃ before line after,
    text = before ++ line ++ after ∧
    (before = [] ∨ before.getLast? = some '\n') ∧ '\n' ∉ line ∧
    (encode before).length ≤ offset ∧ offset ≤ (encode (before ++ line)).length ∧
    LineShown line after shown

/-! ### Bytes -/

/-- Texts one behind the other have their bytes one behind the other. -/
lemma encode_append (cs ds : List Char) : encode (cs ++ ds) = encode cs ++ encode ds :=
  List.flatMap_append

/-- The byte of a line feed stands in no other character. -/
lemma count_encode {cs : List Char} (h : '\n' ∉ cs) (n : Nat) :
    ((encode cs).take n).count 0x0A = 0 := by
  rw [List.count_eq_zero]
  intro hm
  have hb : (0x0A : UInt8) ∈ bytes (String.ofList cs) := by
    rw [bytes, String.toList_ofList]
    exact List.mem_of_mem_take hm
  have hc := mem_of_mem_bytes hb (by decide)
  rw [String.toList_ofList] at hc
  exact h hc

/-! ### Lines -/

/-- A property of texts, for texts of one line and for texts with one more line in front. -/
lemma induction_on_lines {motive : List Char → Prop} (last : ∀ line, '\n' ∉ line → motive line)
    (cons : ∀ line rest, '\n' ∉ line → motive rest → motive (line ++ '\n' :: rest))
    (text : List Char) : motive text := by
  by_cases h : '\n' ∈ text
  · obtain ⟨line, rest, htext, hline⟩ := List.eq_append_cons_of_mem h
    rw [htext]
    exact cons line rest hline (induction_on_lines last cons rest)
  · exact last text h
termination_by text.length
decreasing_by
  rw [htext, List.length_append, List.length_cons]
  omega

/-- A line is one piece. -/
lemma pieces_line {line : List Char} (h : '\n' ∉ line) : pieces (· == '\n') line = [line] := by
  refine pieces_eq_singleton fun c hc => beq_false_of_ne ?_
  rintro rfl
  exact h hc

/-- A single line is the first one. -/
lemma lineAt_one {line : List Char} (h : '\n' ∉ line) : lineAt 1 line = line := by
  rw [lineAt, lines, pieces_line h]
  cases line <;> rfl

/-- A line with its line feed is the first of the lines. -/
lemma lines_cons {line : List Char} (h : '\n' ∉ line) (rest : List Char) :
    lines (line ++ '\n' :: rest) = dropReturn line :: lines rest := by
  obtain ⟨last, ls, hl⟩ :=
    List.exists_cons_of_ne_nil (List.reverse_ne_nil_iff.2 (pieces_ne_nil (· == '\n') rest))
  have hp := pieces_append_cons (p := (· == '\n')) (beq_self_eq_true '\n') line rest
  rw [pieces_line h] at hp
  rw [lines, lines, hp, List.reverse_append, hl]
  simp

/-- Behind a first line the lines are numbered from two. -/
lemma lineAt_cons {line : List Char} (h : '\n' ∉ line) (rest : List Char) (n : Nat) :
    lineAt (1 + (n + 1)) (line ++ '\n' :: rest) = lineAt (1 + n) rest := by
  rw [lineAt, lineAt, lines_cons h, Nat.add_sub_cancel_left, Nat.add_sub_cancel_left,
    List.getElem?_cons_succ]

/-- Where a line feed follows, a line is shown without its carriage return. -/
lemma lineShown_dropReturn (line after : List Char) :
    LineShown line ('\n' :: after) (dropReturn line) := by
  unfold dropReturn
  split
  · next h =>
    obtain ⟨front, rfl⟩ := List.getLast?_eq_some_iff.1 h
    rw [List.dropLast_concat]
    exact .returnFeed
  · next h => exact .feed h

/-- A line that is shown has no line feed. -/
lemma LineAround.newline_not_mem {text shown : List Char} {offset : Nat}
    (h : LineAround text offset shown) : '\n' ∉ shown := by
  obtain ⟨before, line, after, -, -, hfree, -, -, hshown⟩ := h
  cases hshown with
  | last => exact hfree
  | feed _ => exact hfree
  | returnFeed => exact fun hm => hfree (List.mem_append_left _ hm)

/-- Another line in front moves every offset. -/
lemma LineAround.cons {rest shown : List Char} {offset : Nat} (h : LineAround rest offset shown)
    (line : List Char) :
    LineAround (line ++ '\n' :: rest) ((encode line).length + (offset + 1)) shown := by
  obtain ⟨before, around, after, rfl, hbefore, hfree, hlow, hhigh, hshown⟩ := h
  have hbytes (cs : List Char) :
      (encode (line ++ '\n' :: cs)).length = (encode line).length + ((encode cs).length + 1) := by
    rw [encode_append, List.length_append]
    rfl
  refine ⟨line ++ '\n' :: before, around, after, by simp, .inr ?_, hfree, ?_, ?_, hshown⟩
  · obtain rfl | hbefore := hbefore
    · simp
    · simp [List.getLast?_cons, hbefore]
  · rw [hbytes]
    omega
  · rw [List.append_assoc, List.cons_append, hbytes]
    omega

/-- The line with the number of an offset is the line around it. -/
theorem lineAround_lineAt (text : List Char) (offset : Nat) (h : offset ≤ (encode text).length) :
    LineAround text offset (lineAt (1 + ((encode text).take offset).count 0x0A) text) := by
  induction text using induction_on_lines generalizing offset with
  | last line hline =>
    rw [count_encode hline, lineAt_one hline]
    exact ⟨[], line, [], by simp, .inl rfl, hline, Nat.zero_le _, h, .last⟩
  | cons line rest hline ih =>
    have hbytes : encode (line ++ '\n' :: rest) = encode line ++ 0x0A :: encode rest :=
      encode_append line ('\n' :: rest)
    by_cases hle : offset ≤ (encode line).length
    · rw [hbytes, List.take_append_of_le_length hle, count_encode hline, lineAt, lines_cons hline]
      exact ⟨[], line, '\n' :: rest, rfl, .inl rfl, hline, Nat.zero_le _, hle,
        lineShown_dropReturn line rest⟩
    · obtain ⟨more, rfl⟩ : ∃ more, offset = (encode line).length + (more + 1) :=
        ⟨offset - (encode line).length - 1, by omega⟩
      rw [hbytes, List.length_append, List.length_cons] at h
      have hcount : (encode line).count 0x0A = 0 := by
        simpa using count_encode hline (encode line).length
      rw [hbytes, List.take_length_add_append, List.take_succ_cons, List.count_append, hcount,
        List.count_cons_self, Nat.zero_add, lineAt_cons hline]
      exact (ih more (by omega)).cons line

end Jack.Text
