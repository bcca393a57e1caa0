import Jack.Vm.Decode
import Mathlib.Tactic.Lemma

/-!
# Program text and its instructions

A line is written as words with blanks between them, and is read word by word. What is written can
be read again as long as the names in it are words: not empty, without blanks, and without the two
slashes that start a comment. `decode_listing` reads a whole program back.
-/

namespace Jack

namespace Text

/-- A word of a line: not empty, without blanks, and without the start of a comment. -/
structure Legible (w : List Char) : Prop where
  nonempty : w ≠ []
  unbroken : ∀ c ∈ w, isBlank c = false
  uncommented : ¬ ['/', '/'] <:+: w

instance (w : List Char) : Decidable (Legible w) :=
  haveI : Decidable (['/', '/'] <:+: w) := List.instDecidableIsInfixOfDecidableEq _ _
  decidable_of_iff (w.isEmpty = false ∧ w.all (!isBlank ·) = true ∧ ¬ ['/', '/'] <:+: w)
    ⟨fun h => ⟨List.isEmpty_eq_false_iff.1 h.1, by simpa using h.2.1, h.2.2⟩,
      fun h => ⟨List.isEmpty_eq_false_iff.2 h.1, by simpa using h.2, h.3⟩⟩

/-- A character that is neither a blank nor a slash. -/
def Inner (c : Char) : Prop := isBlank c = false ∧ c ≠ '/'

instance (c : Char) : Decidable (Inner c) :=
  inferInstanceAs (Decidable (isBlank c = false ∧ c ≠ '/'))

/-- The printable characters from the digits on may stand in a word. -/
lemma inner_of_range {c : Char} (h : 0x30 ≤ c.toNat) (h' : c.toNat ≤ 0x7E) : Inner c := by
  constructor
  · simp only [isBlank, Bool.or_eq_false_iff, Bool.and_eq_false_iff, decide_eq_false_iff_not,
      beq_eq_false_iff_ne]
    omega
  · rintro rfl
    exact absurd h (by decide)

/-- Digits may stand in a word. -/
lemma inner_of_isDigit {c : Char} (h : c.isDigit = true) : Inner c := by
  simp only [Char.isDigit, Bool.and_eq_true, decide_eq_true_eq] at h
  exact inner_of_range h.1 (Nat.le_trans h.2 (by decide))

/-- A word of characters that may stand in one is legible. -/
lemma legible_of_inner {w : List Char} (hne : w ≠ []) (h : ∀ c ∈ w, Inner c) : Legible w := by
  refine ⟨hne, fun c hc => (h c hc).1, fun hi => ?_⟩
  exact (h '/' (hi.subset List.mem_cons_self)).2 rfl

/-! ### Pieces, words and lines -/

/-- A text is cut into its lines at their ends, and nothing is left behind the last one. -/
lemma lines_terminated {ls : List (List Char)}
    (h : ∀ l ∈ ls, (∀ c ∈ l, c ≠ '\n') ∧ l.getLast? ≠ some '\r') :
    lines (ls.flatMap (· ++ ['\n'])) = ls := by
  have hp : pieces (· == '\n') (ls.flatMap (· ++ ['\n'])) = ls ++ [[]] := by
    induction ls with
    | nil => rfl
    | cons l ls ih =>
      have hl : ∀ c ∈ l, (c == '\n') = false := fun c hc =>
        beq_false_of_ne ((h l List.mem_cons_self).1 c hc)
      rw [List.flatMap_cons, List.append_assoc, List.singleton_append,
        pieces_append_cons (by decide), pieces_eq_singleton hl,
        ih fun m hm => h m (List.mem_cons_of_mem l hm)]
      rfl
  have hr : ∀ l ∈ ls, dropReturn l = l := fun l hl => if_neg (h l hl).2
  rw [lines, hp, List.reverse_append]
  simp only [List.reverse_cons, List.reverse_nil, List.nil_append, List.singleton_append]
  rw [List.map_reverse, List.reverse_reverse]
  simpa using List.map_congr_left hr

/-- Legible words with spaces between them are the pieces between blanks. -/
lemma pieces_intercalate {ws : List (List Char)} (hne : ws ≠ []) (h : ∀ w ∈ ws, Legible w) :
    pieces isBlank ([' '].intercalate ws) = ws := by
  induction ws with
  | nil => exact absurd rfl hne
  | cons w ws ih =>
    have hw := pieces_eq_singleton (h w List.mem_cons_self).unbroken
    cases ws with
    | nil => rw [List.intercalate_singleton, hw]
    | cons w' ws =>
      have hws := ih (List.cons_ne_nil w' ws) fun v hv => h v (List.mem_cons_of_mem w hv)
      rw [List.intercalate_cons_cons, List.append_assoc, List.singleton_append,
        pieces_append_cons (by decide), hw, hws, List.singleton_append]

/-- Words with a blank between them are read one by one. -/
lemma words_intercalate {ws : List (List Char)} (hne : ws ≠ []) (h : ∀ w ∈ ws, Legible w) :
    words ([' '].intercalate ws) = ws.map String.ofList := by
  have hf : ws.filter (!·.isEmpty) = ws := by
    apply List.filter_eq_self.2
    intro w hw
    simpa using (h w hw).nonempty
  rw [words, pieces_intercalate hne h, hf]

/-- A pair of characters is not made by putting another one between two parts. -/
lemma not_infix_append_cons {a b x : Char} {cs ds : List Char} (ha : x ≠ a) (hb : x ≠ b)
    (hc : ¬ [a, b] <:+: cs) (hd : ¬ [a, b] <:+: ds) : ¬ [a, b] <:+: cs ++ x :: ds := by
  induction cs with
  | nil =>
    rw [List.nil_append, List.infix_cons_iff, List.cons_prefix_cons]
    rintro (⟨rfl, -⟩ | hi)
    · exact ha rfl
    · exact hd hi
  | cons c cs ih =>
    rw [List.infix_cons_iff, not_or] at hc
    rw [List.cons_append, List.infix_cons_iff, List.cons_prefix_cons]
    rintro (⟨rfl, hp⟩ | hi)
    -- The two characters would start here: the second one is not `x`, so they stand in `cs`.
    · cases cs with
      | nil =>
        rw [List.nil_append, List.cons_prefix_cons] at hp
        exact hb hp.1.symm
      | cons c' cs =>
        rw [List.cons_append, List.cons_prefix_cons] at hp
        exact hc.1 (List.cons_prefix_cons.2 ⟨rfl, List.cons_prefix_cons.2 ⟨hp.1, List.nil_prefix⟩⟩)
    · exact ih hc.2 hi

/-- There is no comment in legible words with spaces between them. -/
lemma not_infix_intercalate {ws : List (List Char)} (h : ∀ w ∈ ws, Legible w) :
    ¬ ['/', '/'] <:+: [' '].intercalate ws := by
  induction ws with
  | nil => decide
  | cons w ws ih =>
    have hw := (h w List.mem_cons_self).uncommented
    cases ws with
    | nil => rwa [List.intercalate_singleton]
    | cons w' ws =>
      rw [List.intercalate_cons_cons, List.append_assoc, List.singleton_append]
      exact not_infix_append_cons (by decide) (by decide) hw
        (ih fun v hv => h v (List.mem_cons_of_mem w hv))

/-- Where no blank stands in front none is dropped. -/
lemma dropWhile_isBlank {cs : List Char} (h : ∀ c ∈ cs.head?, isBlank c = false) :
    cs.dropWhile isBlank = cs := by
  cases cs with
  | nil => rfl
  | cons c cs => exact List.dropWhile_cons_of_neg (by rw [h c rfl]; exact Bool.false_ne_true)

/-- Where no blank stands at either end nothing is trimmed. -/
lemma trim_eq_self {cs : List Char} (hh : ∀ c ∈ cs.head?, isBlank c = false)
    (hl : ∀ c ∈ cs.getLast?, isBlank c = false) : trim cs = cs := by
  rw [← List.head?_reverse] at hl
  rw [trim, dropWhile_isBlank hh, dropWhile_isBlank hl, List.reverse_reverse]

/-- No blank stands in front of legible words. -/
lemma head?_intercalate {ws : List (List Char)} (h : ∀ w ∈ ws, Legible w) :
    ∀ c ∈ ([' '].intercalate ws).head?, isBlank c = false := by
  intro c hc
  cases ws with
  | nil => cases hc
  | cons w ws =>
    have hw := h w List.mem_cons_self
    obtain ⟨d, ds, rfl⟩ := List.exists_cons_of_ne_nil hw.nonempty
    have hd : c = d := by
      cases ws with
      | nil => simpa [eq_comm] using hc
      | cons w' ws => simpa [eq_comm] using hc
    rw [hd]
    exact hw.unbroken d List.mem_cons_self

/-- Legible words with spaces between them are not nothing. -/
lemma intercalate_ne_nil {ws : List (List Char)} (hne : ws ≠ []) (h : ∀ w ∈ ws, Legible w) :
    [' '].intercalate ws ≠ [] := by
  intro hn
  have hp := pieces_intercalate hne h
  rw [hn] at hp
  exact (h [] (by rw [← hp]; exact List.mem_cons_self)).nonempty rfl

/-- No blank stands behind legible words. -/
lemma getLast?_intercalate {ws : List (List Char)} (h : ∀ w ∈ ws, Legible w) :
    ∀ c ∈ ([' '].intercalate ws).getLast?, isBlank c = false := by
  induction ws with
  | nil => exact fun c hc => nomatch hc
  | cons w ws ih =>
    intro c hc
    cases ws with
    | nil =>
      rw [List.intercalate_singleton] at hc
      exact (h w List.mem_cons_self).unbroken c (List.mem_of_getLast? hc)
    | cons w' ws =>
      refine ih (fun v hv => h v (List.mem_cons_of_mem w hv)) c ?_
      have hne := intercalate_ne_nil (List.cons_ne_nil w' ws) fun v hv =>
        h v (List.mem_cons_of_mem w hv)
      have hl := List.getLast?_eq_some_getLast hne
      rw [List.intercalate_cons_cons, List.getLast?_append, hl, Option.some_or] at hc
      rw [hl]
      exact hc

/-- Between words there are only spaces. -/
lemma eq_space_or_mem_of_mem_intercalate {ws : List (List Char)} {c : Char}
    (h : c ∈ [' '].intercalate ws) : c = ' ' ∨ ∃ w ∈ ws, c ∈ w := by
  induction ws with
  | nil => cases h
  | cons w ws ih =>
    cases ws with
    | nil =>
      rw [List.intercalate_singleton] at h
      exact .inr ⟨w, List.mem_cons_self, h⟩
    | cons w' ws =>
      rw [List.intercalate_cons_cons, List.append_assoc, List.singleton_append, List.mem_append,
        List.mem_cons] at h
      obtain h | h | h := h
      · exact .inr ⟨w, List.mem_cons_self, h⟩
      · exact .inl h
      · obtain h | ⟨v, hv, hc⟩ := ih h
        · exact .inl h
        · exact .inr ⟨v, List.mem_cons_of_mem w hv, hc⟩

/-- A line of words is its own trimmed text. -/
lemma trim_intercalate {ws : List (List Char)} (h : ∀ w ∈ ws, Legible w) :
    trim ([' '].intercalate ws) = [' '].intercalate ws :=
  trim_eq_self (head?_intercalate h) (getLast?_intercalate h)

end Text

namespace Vm.Instruction

open Text

/-- A text without two slashes has no comment. -/
lemma beforeComment_eq {cs : List Char} (h : ¬ ['/', '/'] <:+: cs) (acc : List Char) :
    beforeComment acc cs = acc.reverse ++ cs := by
  fun_induction beforeComment acc cs with
  | case1 acc => rw [List.append_nil]
  | case2 acc cs => exact absurd ⟨[], cs, rfl⟩ h
  | case3 acc c cs _ ih =>
    rw [List.infix_cons_iff, not_or] at h
    rw [ih h.2, List.reverse_cons, List.append_assoc, List.singleton_append]

/-- The words that write an instruction. -/
def spelling : Instruction → List String
  | .push segment index => ["push", segment.name, index.toNat.repr]
  | .pop segment index => ["pop", segment.name, index.toNat.repr]
  | .arithmetic op => [op.mnemonic]
  | .label name => ["label", name]
  | .goto name => ["goto", name]
  | .ifGoto name => ["if-goto", name]
  | .function name locals => ["function", name, locals.toNat.repr]
  | .call name args => ["call", name, args.toNat.repr]
  | .ret => ["return"]

/-- The text of an instruction is its words with blanks between them. -/
lemma toList_text (i : Instruction) :
    i.text.toList = [' '].intercalate (i.spelling.map String.toList) := by
  cases i <;> simp [text, spelling, List.intercalate_cons_cons]

/-- Does an instruction have a line of its own that can be read again? -/
def Writable : Instruction → Prop
  | .pop segment _ => segment ≠ .constant
  | .label name | .goto name | .ifGoto name | .function name _ | .call name _ =>
    Legible name.toList
  | .push _ _ | .arithmetic _ | .ret => True

/-- A number is written with digits. -/
lemma isDigit_of_mem_repr {n : Nat} {c : Char} (h : c ∈ n.repr.toList) : c.isDigit = true := by
  rw [Nat.toList_repr] at h
  exact Nat.isDigit_of_mem_toDigits (by omega) (by omega) h

/-- A number is a legible word. -/
lemma legible_repr (n : Nat) : Legible n.repr.toList := by
  refine legible_of_inner ?_ fun c hc => inner_of_isDigit (isDigit_of_mem_repr hc)
  rw [Nat.toList_repr]
  exact Nat.toDigits_ne_nil

/-- The name of a segment is a legible word. -/
lemma legible_segment (s : Segment) : Legible s.name.toList := by
  cases s <;> decide +kernel

/-- The mnemonic of an operation is a legible word. -/
lemma legible_mnemonic (op : Op) : Legible op.mnemonic.toList := by
  cases op <;> decide +kernel

/-- The words that are the same for all instructions of a shape. -/
lemma legible_commands : ∀ word ∈ ["push", "pop", "label", "goto", "if-goto", "function", "call",
    "return"], Legible word.toList := by
  decide +kernel

/-- An instruction that can be written is spelled with legible words. -/
lemma legible_spelling {i : Instruction} (h : i.Writable) :
    ∀ word ∈ i.spelling, Legible word.toList := by
  have hc := legible_commands
  simp only [List.forall_mem_cons] at hc
  obtain ⟨hpush, hpop, hlabel, hgoto, hif, hfunction, hcall, hreturn, hnil⟩ := hc
  cases i <;> simp only [spelling, List.forall_mem_cons]
  case push segment index => exact ⟨hpush, legible_segment segment, legible_repr _, hnil⟩
  case pop segment index => exact ⟨hpop, legible_segment segment, legible_repr _, hnil⟩
  case arithmetic op => exact ⟨legible_mnemonic op, hnil⟩
  case label name => exact ⟨hlabel, h, hnil⟩
  case goto name => exact ⟨hgoto, h, hnil⟩
  case ifGoto name => exact ⟨hif, h, hnil⟩
  case function name locals => exact ⟨hfunction, h, legible_repr _, hnil⟩
  case call name args => exact ⟨hcall, h, legible_repr _, hnil⟩
  case ret => exact ⟨hreturn, hnil⟩

/-- The digits of a number have its value. -/
lemma decimalValue_repr (n : Nat) : decimalValue n.repr.toList = n := by
  rw [Nat.toList_repr]
  exact Nat.ofDigitChars_ten_toDigits

/-- The digits of a word are read as the word. -/
lemma readWord?_repr (n : UInt16) : readWord? n.toNat.repr = some n := by
  have hd : ∀ c ∈ n.toNat.repr.toList, c.isDigit = true := fun c => isDigit_of_mem_repr
  have hw : wordOfDigits? n.toNat.repr.toList = some n := by
    have hg : (n.toNat.repr.toList.isEmpty || !n.toNat.repr.toList.all Char.isDigit) = false := by
      rw [Bool.or_eq_false_iff, List.isEmpty_eq_false_iff, Bool.not_eq_false', List.all_eq_true]
      exact ⟨(legible_repr n.toNat).nonempty, hd⟩
    rw [wordOfDigits?, hg, valueBelow?_eq (by decide), decimalValue_repr, if_pos n.toNat_lt]
    simp
  unfold readWord?
  split
  · next ds h => exact absurd (hd '+' (by rw [h]; exact List.mem_cons_self)) (by decide)
  · exact hw

/-- The digits of a number are read as the number. -/
lemma readNumber_repr (n : UInt16) : readNumber n.toNat.repr = .ok n := by
  rw [readNumber, readWord?_repr]

/-- The name of a segment is read as the segment. -/
lemma readSegment_name (s : Segment) : readSegment s.name = .ok s := by
  rw [readSegment, Segment.ofName?_name]

/-- The words of an instruction are read as it. -/
lemma ofWords_spelling {i : Instruction} (h : i.Writable) (line : String) :
    ofWords line i.spelling = .ok i := by
  cases i with
  | push segment index =>
    simp only [spelling, ofWords, readSegment_name, readNumber_repr]
    rfl
  | pop segment index =>
    have hs : segment ≠ .constant := h
    simp only [spelling, ofWords, readSegment_name, readNumber_repr]
    show (if segment = .constant then _ else _) = _
    rw [if_neg hs]
    rfl
  | arithmetic op => cases op <;> rfl
  | label name => rfl
  | goto name => rfl
  | ifGoto name => rfl
  | function name locals =>
    simp only [spelling, ofWords, readNumber_repr]
    rfl
  | call name args =>
    simp only [spelling, ofWords, readNumber_repr]
    rfl
  | ret => rfl

/-- The words of an instruction that can be written are legible. -/
lemma legible_words {i : Instruction} (h : i.Writable) :
    ∀ w ∈ i.spelling.map String.toList, Legible w :=
  List.forall_mem_map.2 (legible_spelling h)

/-- A line that writes an instruction is read as it. -/
lemma ofLine?_text {i : Instruction} (h : i.Writable) : ofLine? i.text.toList = some (.ok i) := by
  have hw := legible_words h
  have hne : i.spelling.map String.toList ≠ [] := by
    cases i <;> exact List.cons_ne_nil _ _
  have hb : beforeComment [] i.text.toList = [' '].intercalate (i.spelling.map String.toList) := by
    rw [toList_text, beforeComment_eq (not_infix_intercalate hw)]
    rfl
  have hs : (i.spelling.map String.toList).map String.ofList = i.spelling := by
    simp
  have he : ([' '].intercalate (i.spelling.map String.toList)).isEmpty = false := by
    rw [List.isEmpty_eq_false_iff]
    exact intercalate_ne_nil hne hw
  rw [ofLine?, hb, trim_intercalate hw, words_intercalate hne hw, hs, ofWords_spelling h, he]
  rfl

/-- An instruction that can be written stands on one line, which ends in no carriage return. -/
lemma text_unbroken {i : Instruction} (h : i.Writable) :
    (∀ c ∈ i.text.toList, c ≠ '\n') ∧ i.text.toList.getLast? ≠ some '\r' := by
  have hw := legible_words h
  rw [toList_text]
  constructor
  · rintro c hc rfl
    obtain hs | ⟨w, hm, hc⟩ := eq_space_or_mem_of_mem_intercalate hc
    · exact absurd hs (by decide)
    · exact absurd ((hw w hm).unbroken _ hc) (by decide)
  · intro hl
    exact absurd (getLast?_intercalate hw _ hl) (by decide)

/-- A listing has the texts of its instructions with a line feed behind each. -/
lemma toList_listing (is : List Instruction) :
    (listing is).toList = (is.map fun i => i.text.toList).flatMap (· ++ ['\n']) := by
  induction is with
  | nil => rfl
  | cons i is ih =>
    have hl : (listing (i :: is)).toList = i.text.toList ++ '\n' :: (listing is).toList := by
      simp
    rw [hl, ih, List.map_cons, List.flatMap_cons, List.append_assoc]
    rfl

/-- The lines of a listing are the texts of its instructions. -/
lemma lines_listing {is : List Instruction} (h : ∀ i ∈ is, i.Writable) :
    lines (listing is).toList = is.map fun i => i.text.toList := by
  rw [toList_listing]
  exact lines_terminated (List.forall_mem_map.2 fun i hi => text_unbroken (h i hi))

/-- A program of writable instructions is read back from its text. -/
theorem decode_listing {is : List Instruction} (h : ∀ i ∈ is, i.Writable) :
    decode (listing is) = is.map .ok := by
  rw [decode, lines_listing h]
  generalize 1 = n
  induction is generalizing n with
  | nil => rfl
  | cons i is ih =>
    have hi := ofLine?_text (h i List.mem_cons_self)
    have his := ih (fun j hj => h j (List.mem_cons_of_mem i hj)) (n + 1)
    rw [List.map_cons, List.zipIdx_cons, ofLines, List.filterMap_cons]
    simp only [hi, Option.map_some, List.map_cons]
    exact congrArg _ his

end Vm.Instruction

end Jack
