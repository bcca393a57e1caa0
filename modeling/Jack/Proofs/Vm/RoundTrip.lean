import Jack.Proofs.Vm.Text

/-!
# What program text can hold

Whatever is read from a text can be written again: a word of a line is not empty and has neither
blanks nor the start of a comment, and so the names that are read are words. An instruction is
therefore read back from its own line exactly where it is writable.
-/

namespace Jack

namespace Text

/-- The first piece starts the text, and the others stand somewhere behind its start. -/
lemma exists_pieces_eq_cons (p : Char → Bool) (cs : List Char) :
    ∃ l ls, pieces p cs = l :: ls ∧ l <+: cs ∧ ∀ w ∈ ls, w <:+: cs := by
  induction cs with
  | nil => exact ⟨[], [], rfl, List.nil_prefix, by simp⟩
  | cons c cs ih =>
    obtain ⟨l, ls, hp, hl, hls⟩ := ih
    by_cases hc : p c = true
    · refine ⟨[], l :: ls, ?_, List.nil_prefix, ?_⟩
      · rw [pieces_cons_of_pos hc, hp]
      · intro w hw
        obtain rfl | hw := List.mem_cons.1 hw
        · exact hl.isInfix.trans (List.suffix_cons c cs).isInfix
        · exact (hls w hw).trans (List.suffix_cons c cs).isInfix
    · rw [Bool.not_eq_true] at hc
      refine ⟨c :: l, ls, pieces_cons_of_neg hc hp, ?_, ?_⟩
      · exact List.cons_prefix_cons.2 ⟨rfl, hl⟩
      · intro w hw
        exact (hls w hw).trans (List.suffix_cons c cs).isInfix

/-- A piece stands somewhere in the text. -/
lemma infix_of_mem_pieces {p : Char → Bool} {cs w : List Char} (h : w ∈ pieces p cs) :
    w <:+: cs := by
  obtain ⟨l, ls, hp, hl, hls⟩ := exists_pieces_eq_cons p cs
  rw [hp] at h
  obtain rfl | h := List.mem_cons.1 h
  · exact hl.isInfix
  · exact hls w h

/-- A trimmed text stands in the text. -/
lemma isInfix_trim (cs : List Char) : trim cs <:+: cs := by
  have hs := List.dropWhile_suffix (l := (cs.dropWhile isBlank).reverse) isBlank
  have hp : trim cs <+: cs.dropWhile isBlank := by
    rw [trim]
    simpa using List.reverse_prefix.2 hs
  exact hp.isInfix.trans (List.dropWhile_suffix isBlank).isInfix

/-- The words of a text without comments are legible. -/
lemma legible_of_mem_words {cs : List Char} (hcs : ¬ ['/', '/'] <:+: cs) {word : String}
    (h : word ∈ words cs) : Legible word.toList := by
  obtain ⟨w, hw, rfl⟩ := List.mem_map.1 h
  obtain ⟨hw, hne⟩ := List.mem_filter.1 hw
  rw [String.toList_ofList]
  refine ⟨?_, eq_false_of_mem_pieces hw, ?_⟩
  · simpa using hne
  · exact fun hi => hcs (hi.trans (infix_of_mem_pieces hw))

/-- What stands before the comment of a line, which starts at the first two slashes. -/
inductive Uncommented : List Char → List Char → Prop where
  | plain {line} :
    ¬ ['/', '/'] <:+: line →
    Uncommented line line
  | comment (code text) :
    ¬ ['/', '/'] <:+: code ++ ['/'] →
    Uncommented (code ++ '/' :: '/' :: text) code

/-- There are no two slashes in front of a comment. -/
lemma Uncommented.not_infix_slashes {line code : List Char} (h : Uncommented line code) :
    ¬ ['/', '/'] <:+: code := by
  cases h with
  | plain hi => exact hi
  | comment _ _ hi => exact fun h => hi (h.trans (List.prefix_append code ['/']).isInfix)

end Text

namespace Vm.Instruction

open Text

instance : (i : Instruction) → Decidable i.Writable
  | .pop segment _ => inferInstanceAs (Decidable (segment ≠ .constant))
  | .label name => inferInstanceAs (Decidable (Legible name.toList))
  | .goto name => inferInstanceAs (Decidable (Legible name.toList))
  | .ifGoto name => inferInstanceAs (Decidable (Legible name.toList))
  | .function name _ => inferInstanceAs (Decidable (Legible name.toList))
  | .call name _ => inferInstanceAs (Decidable (Legible name.toList))
  | .push _ _ => .isTrue trivial
  | .arithmetic _ => .isTrue trivial
  | .ret => .isTrue trivial

/-- Everything before the comment of a line is kept, and nothing else. -/
lemma exists_uncommented (acc cs : List Char) :
    ∃ code, beforeComment acc cs = acc.reverse ++ code ∧ Uncommented cs code := by
  fun_induction beforeComment acc cs with
  | case1 acc => exact ⟨[], by simp, .plain (by decide)⟩
  | case2 acc cs => exact ⟨[], by simp, .comment [] cs (by decide)⟩
  | case3 acc c cs hc ih =>
    obtain ⟨code, he, hu⟩ := ih
    have hn {front : List Char} (hp : front <+: cs) (hi : ¬ ['/', '/'] <:+: front) :
        ¬ ['/', '/'] <:+: c :: front := by
      rw [List.infix_cons_iff, List.cons_prefix_cons]
      rintro (⟨rfl, hs⟩ | hi')
      -- Two slashes at the start of the code would be two slashes at the start of the line.
      · obtain ⟨rest, rfl⟩ := hs.trans hp
        exact hc rest rfl rfl
      · exact hi hi'
    refine ⟨c :: code, by simp [he], ?_⟩
    cases hu with
    | plain hi => exact .plain (hn List.prefix_rfl hi)
    | comment _ text hi => exact .comment (c :: code) text (hn ⟨'/' :: text, by simp⟩ hi)

/-- What stands before the comment of a line is its code. -/
lemma uncommented_beforeComment (cs : List Char) : Uncommented cs (beforeComment [] cs) := by
  obtain ⟨code, he, hu⟩ := exists_uncommented [] cs
  rw [he]
  exact hu

/-- A reading that goes on from another one works out only where that one does. -/
lemma exists_of_bind_eq_ok {α β : Type} {x : Except DecodeCause α} {f : α → Except DecodeCause β}
    {b : β} (h : (x >>= f) = .ok b) : ∃ a, x = .ok a ∧ f a = .ok b := by
  cases x with
  | error cause => cases h
  | ok a => exact ⟨a, rfl, h⟩

/-- Legible words write an instruction that can be written again. -/
lemma writable_of_ofWords {line : String} {ws : List String} {i : Instruction}
    (hw : ∀ word ∈ ws, Legible word.toList) (h : ofWords line ws = .ok i) : i.Writable := by
  unfold ofWords at h
  -- One case for each shape of a line, in the order in which the shapes are tried.
  split at h
  case h_1 segment index =>
    obtain ⟨s, -, h⟩ := exists_of_bind_eq_ok h
    obtain ⟨n, -, h⟩ := exists_of_bind_eq_ok h
    cases h
    trivial
  case h_2 segment index =>
    obtain ⟨s, -, h⟩ := exists_of_bind_eq_ok h
    split at h
    · cases h
    · next hs =>
      obtain ⟨n, -, h⟩ := exists_of_bind_eq_ok h
      cases h
      exact hs
  case h_3 name =>
    cases h
    exact hw name (by simp)
  case h_4 name =>
    cases h
    exact hw name (by simp)
  case h_5 name =>
    cases h
    exact hw name (by simp)
  case h_6 name locals =>
    obtain ⟨n, -, h⟩ := exists_of_bind_eq_ok h
    cases h
    exact hw name (by simp)
  case h_7 name args =>
    obtain ⟨n, -, h⟩ := exists_of_bind_eq_ok h
    cases h
    exact hw name (by simp)
  case h_8 =>
    cases h
    trivial
  case h_9 word _ =>
    split at h
    · cases h
      trivial
    · cases h
  case h_10 => cases h

/-- What is read from a line can be written. -/
lemma writable_of_ofLine? {line : List Char} {i : Instruction} (h : ofLine? line = some (.ok i)) :
    i.Writable := by
  rw [ofLine?] at h
  split at h
  · cases h
  · have hi : ¬ ['/', '/'] <:+: trim (beforeComment [] line) := fun hi =>
      (uncommented_beforeComment line).not_infix_slashes (hi.trans (isInfix_trim _))
    exact writable_of_ofWords (fun word => legible_of_mem_words hi) (Option.some.inj h)

/-- Whatever is read from a text is writable. -/
theorem writable_of_mem_decode {text : String} {i : Instruction} (h : .ok i ∈ decode text) :
    i.Writable := by
  rw [decode, ofLines] at h
  obtain ⟨⟨line, number⟩, -, hl⟩ := List.mem_filterMap.1 h
  obtain ⟨item, hitem, hi⟩ := Option.map_eq_some_iff.1 hl
  cases item with
  | error cause => cases hi
  | ok j =>
    cases hi
    exact writable_of_ofLine? hitem

/-- An instruction that can be written is one line. -/
lemma lines_text {i : Instruction} (h : i.Writable) : lines i.text.toList = [i.text.toList] := by
  have hp : pieces (· == '\n') i.text.toList = [i.text.toList] :=
    pieces_eq_singleton fun c hc => beq_false_of_ne ((text_unbroken h).1 c hc)
  have hne : i.text.toList ≠ [] := by
    intro hn
    have hl := ofLine?_text h
    rw [hn] at hl
    cases hl
  simp [lines, hp, hne]

/-- The line of a writable instruction is read as it. -/
lemma decode_text {i : Instruction} (h : i.Writable) : decode i.text = [.ok i] := by
  rw [decode, lines_text h]
  simp [ofLines, ofLine?_text h]

/-- A program of writable instructions is read back from its text. An instruction is read back from
its own line, with and without the end of the line, exactly where it is writable. -/
theorem decode_text_iff_writable :
    (∀ is : List Instruction, (∀ i ∈ is, i.Writable) → decode (listing is) = is.map .ok) ∧
      ∀ i : Instruction, (decode i.text = [.ok i] ↔ i.Writable) ∧
        (decode (listing [i]) = [.ok i] ↔ i.Writable) := by
  refine ⟨fun is => decode_listing, fun i => ⟨⟨?_, decode_text⟩, ?_, ?_⟩⟩
  · intro h
    have hm : .ok i ∈ decode i.text := by
      rw [h]
      exact List.mem_cons_self
    exact writable_of_mem_decode hm
  · intro h
    have hm : .ok i ∈ decode (listing [i]) := by
      rw [h]
      exact List.mem_cons_self
    exact writable_of_mem_decode hm
  · intro h
    exact decode_listing (List.forall_mem_singleton.2 h)

/-- A program with a slash and a letter beyond ASCII in its names, and two labels that no line
writes. -/
theorem decode_text_iff_writable_slash :
    decode (listing [.function "Main.run" 1, .label "a/b", .push .constant 65535, .pop .localVar 0,
        .ifGoto "a/b", .call "Zähler.next" 2, .ret]) =
      [.ok (.function "Main.run" 1), .ok (.label "a/b"), .ok (.push .constant 65535),
        .ok (.pop .localVar 0), .ok (.ifGoto "a/b"), .ok (.call "Zähler.next" 2), .ok .ret] ∧
    decode (label "a//b").text ≠ [.ok (label "a//b")] ∧
    decode (label "a b").text ≠ [.ok (label "a b")] := by
  obtain ⟨hread, hiff⟩ := decode_text_iff_writable
  refine ⟨hread _ (by decide +kernel), ?_, ?_⟩
  · rw [Ne, (hiff _).1]
    decide +kernel
  · rw [Ne, (hiff _).1]
    decide +kernel

end Vm.Instruction

end Jack
