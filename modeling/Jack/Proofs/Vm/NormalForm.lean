import Jack.Proofs.Vm.Linewise

/-!
# The normal form of program text

Whatever is read from a text can be written, and is read back from what is written. So writing what
was read is a normal form of the text. Compared with the text it lacks blank lines, faulty lines and
comments, and its words are those of the text but for the spelling of numbers (`SameWord`).
-/

namespace Jack

namespace Text

/-! ### Numbers -/

/-- The spellings of a number: at most one plus sign, then any number of zeros, then its digits. -/
def NumberSpelling (n : Nat) (word : String) : Prop :=
  ∃ sign zeros, (sign = [] ∨ sign = ['+']) ∧
    word.toList = sign ++ List.replicate zeros '0' ++ n.repr.toList

/-- A digit is the character of its value, which is below ten. -/
lemma digitValue_of_isDigit {d : Char} (h : d.isDigit = true) :
    digitValue d < 10 ∧ (digitValue d).digitChar = d := by
  have hd : 48 ≤ d.toNat ∧ d.toNat ≤ 57 := by
    simpa [Char.isDigit, UInt32.le_iff_toNat_le] using h
  have hv : digitValue d = d.toNat - 48 := rfl
  refine ⟨by omega, Char.toNat_inj.1 ?_⟩
  rw [Nat.toNat_digitChar_of_lt_ten (by omega)]
  omega

/-- More digits behind a number that is not zero. -/
lemma toDigits_append {ds : List Char} (h : ∀ d ∈ ds, d.isDigit = true) {n : Nat} (hn : 0 < n) :
    Nat.toDigits 10 n ++ ds =
      Nat.toDigits 10 (ds.foldl (fun n d => 10 * n + digitValue d) n) := by
  induction ds generalizing n with
  | nil => rw [List.append_nil, List.foldl_nil]
  | cons d ds ih =>
    obtain ⟨hd, hds⟩ := List.forall_mem_cons.1 h
    obtain ⟨hlt, hchar⟩ := digitValue_of_isDigit hd
    have happ := Nat.toDigits_append_toDigits (b := 10) (by decide) hn hlt
    rw [Nat.toDigits_of_lt_base hlt, hchar] at happ
    rw [List.append_cons, happ, ih hds (by omega), List.foldl_cons]

/-- The value of digits starts from that of the first. -/
lemma decimalValue_cons (d : Char) (ds : List Char) :
    decimalValue (d :: ds) = ds.foldl (fun n d => 10 * n + digitValue d) (digitValue d) := by
  rw [decimalValue, List.foldl_cons, Nat.mul_zero, Nat.zero_add]

/-- A run of digits is some zeros and then the digits of its value. -/
lemma exists_zeros {ds : List Char} (hne : ds ≠ []) (h : ∀ d ∈ ds, d.isDigit = true) :
    ∃ zeros, ds = List.replicate zeros '0' ++ (decimalValue ds).repr.toList := by
  induction ds with
  | nil => exact absurd rfl hne
  | cons d ds ih =>
    obtain ⟨hd, hds⟩ := List.forall_mem_cons.1 h
    obtain ⟨hlt, hchar⟩ := digitValue_of_isDigit hd
    have hone : Nat.toDigits 10 (digitValue d) = [d] := by
      rw [Nat.toDigits_of_lt_base hlt, hchar]
    -- A zero in front is one zero more, unless it is the only digit.
    by_cases hz : digitValue d = 0
    · cases ds with
      | nil =>
        refine ⟨0, ?_⟩
        rw [decimalValue_cons, Nat.toList_repr, List.foldl_nil, hone]
        rfl
      | cons e es =>
        obtain ⟨zeros, he⟩ := ih (List.cons_ne_nil e es) hds
        have hd0 : d = '0' := by
          rw [hz] at hchar
          exact hchar.symm
        have hv : decimalValue (d :: e :: es) = decimalValue (e :: es) := by
          rw [decimalValue_cons, hz]
          rfl
        refine ⟨zeros + 1, ?_⟩
        rw [hv, List.replicate_succ, List.cons_append, ← he, hd0]
    · refine ⟨0, ?_⟩
      rw [decimalValue_cons, Nat.toList_repr, ← toDigits_append hds (Nat.pos_of_ne_zero hz), hone]
      rfl

/-- Digits that are a word are its decimal digits with zeros in front. -/
lemma wordOfDigits?_eq_some {ds : List Char} {n : UInt16} (h : wordOfDigits? ds = some n) :
    ∃ zeros, ds = List.replicate zeros '0' ++ n.toNat.repr.toList := by
  rw [wordOfDigits?] at h
  split at h
  · cases h
  · next hg =>
    simp only [Bool.or_eq_true, List.isEmpty_iff, Bool.not_eq_eq_eq_not, Bool.not_true,
      not_or, Bool.not_eq_false, List.all_eq_true] at hg
    rw [valueBelow?_eq (by decide)] at h
    split at h
    · next hlt =>
      have hn : decimalValue ds = n.toNat := by
        rw [← Option.some.inj h]
        exact (UInt16.toNat_ofNat_of_lt' hlt).symm
      rw [← hn]
      exact exists_zeros hg.1 hg.2
    · cases h

/-- What is read as a word is a spelling of its number. -/
lemma numberSpelling_of_readWord? {word : String} {n : UInt16} (h : readWord? word = some n) :
    NumberSpelling n.toNat word := by
  unfold readWord? at h
  split at h
  · next ds hds =>
    obtain ⟨zeros, he⟩ := wordOfDigits?_eq_some h
    exact ⟨['+'], zeros, .inr rfl, by rw [hds, he]; rfl⟩
  · obtain ⟨zeros, he⟩ := wordOfDigits?_eq_some h
    exact ⟨[], zeros, .inl rfl, he⟩

/-! ### Words -/

/-- A blank separates the words around it. -/
lemma words_append_cons {c : Char} (h : isBlank c = true) (as bs : List Char) :
    words (as ++ c :: bs) = words as ++ words bs := by
  rw [words, pieces_append_cons h, List.filter_append, List.map_append]
  rfl

/-- Blanks have no words. -/
lemma words_eq_nil {cs : List Char} (h : ∀ c ∈ cs, isBlank c = true) : words cs = [] := by
  induction cs with
  | nil => rfl
  | cons c cs ih =>
    obtain ⟨hc, hcs⟩ := List.forall_mem_cons.1 h
    exact (words_append_cons hc [] cs).trans (ih hcs)

/-- Blanks at the end add no words. -/
lemma words_append_blanks (as : List Char) {bs : List Char} (h : ∀ c ∈ bs, isBlank c = true) :
    words (as ++ bs) = words as := by
  cases bs with
  | nil => rw [List.append_nil]
  | cons b bs =>
    obtain ⟨hb, hbs⟩ := List.forall_mem_cons.1 h
    rw [words_append_cons hb, words_eq_nil hbs, List.append_nil]

/-- Dropping the blanks in front leaves the words. -/
lemma words_dropWhile (cs : List Char) : words (cs.dropWhile isBlank) = words cs := by
  induction cs with
  | nil => rfl
  | cons c cs ih =>
    by_cases hc : isBlank c = true
    · rw [List.dropWhile_cons_of_pos hc, ih]
      exact (words_append_cons hc [] cs).symm
    · rw [List.dropWhile_cons_of_neg hc]

/-- Blanks around a text do not change its words. -/
lemma words_trim (cs : List Char) : words (trim cs) = words cs := by
  have he := List.takeWhile_append_dropWhile (p := isBlank) (l := (cs.dropWhile isBlank).reverse)
  have hb : ∀ c ∈ ((cs.dropWhile isBlank).reverse.takeWhile isBlank).reverse, isBlank c = true := by
    intro c hc
    exact List.all_eq_true.1 List.all_takeWhile c (List.mem_reverse.1 hc)
  have hr := congrArg List.reverse he
  rw [List.reverse_append, List.reverse_reverse] at hr
  rw [trim, ← words_append_blanks _ hb, hr, words_dropWhile]

end Text

namespace Vm.Instruction

open Text

/-- A word of a text and the word that is written for it. -/
inductive SameWord : String → String → Prop where
  | same {word} :
    SameWord word word
  | number {n word} :
    NumberSpelling n word →
    SameWord word n.repr

/-- What is read as a number is the same word as its digits. -/
lemma sameWord_of_readNumber {word : String} {n : UInt16} (h : readNumber word = .ok n) :
    SameWord word n.toNat.repr := by
  unfold readNumber at h
  split at h
  · next m hm =>
    cases h
    exact .number (numberSpelling_of_readWord? hm)
  · cases h

/-- What is read as a segment is its name. -/
lemma name_of_readSegment {word : String} {s : Segment} (h : readSegment word = .ok s) :
    s.name = word := by
  unfold readSegment at h
  split at h
  · next t ht =>
    cases h
    simpa using List.find?_some ht
  · cases h

/-- The words that an instruction is read from are those that write it, up to numbers. -/
lemma sameWords_of_ofWords {line : String} {ws : List String} {i : Instruction}
    (h : ofWords line ws = .ok i) : List.Forall₂ SameWord ws i.spelling := by
  unfold ofWords at h
  -- One case for each shape of a line, in the order in which the shapes are tried.
  split at h
  case h_1 segment index =>
    obtain ⟨s, hs, h⟩ := exists_of_bind_eq_ok h
    obtain ⟨n, hn, h⟩ := exists_of_bind_eq_ok h
    cases h
    obtain rfl := name_of_readSegment hs
    exact .cons .same (.cons .same (.cons (sameWord_of_readNumber hn) .nil))
  case h_2 segment index =>
    obtain ⟨s, hs, h⟩ := exists_of_bind_eq_ok h
    split at h
    · cases h
    · obtain ⟨n, hn, h⟩ := exists_of_bind_eq_ok h
      cases h
      obtain rfl := name_of_readSegment hs
      exact .cons .same (.cons .same (.cons (sameWord_of_readNumber hn) .nil))
  case h_3 name =>
    cases h
    exact .cons .same (.cons .same .nil)
  case h_4 name =>
    cases h
    exact .cons .same (.cons .same .nil)
  case h_5 name =>
    cases h
    exact .cons .same (.cons .same .nil)
  case h_6 name locals =>
    obtain ⟨n, hn, h⟩ := exists_of_bind_eq_ok h
    cases h
    exact .cons .same (.cons .same (.cons (sameWord_of_readNumber hn) .nil))
  case h_7 name args =>
    obtain ⟨n, hn, h⟩ := exists_of_bind_eq_ok h
    cases h
    exact .cons .same (.cons .same (.cons (sameWord_of_readNumber hn) .nil))
  case h_8 =>
    cases h
    exact .cons .same .nil
  case h_9 word _ =>
    split at h
    · next op hop =>
      cases h
      have hm : op.mnemonic = word := by simpa using List.find?_some hop
      rw [← hm]
      exact .cons .same .nil
    · cases h
  case h_10 => cases h

/-! ### The normal form -/

/-- The words of an instruction that can be written are its spelling. -/
lemma words_text {i : Instruction} (h : i.Writable) : words i.text.toList = i.spelling := by
  have hne : i.spelling.map String.toList ≠ [] := by
    cases i <;> exact List.cons_ne_nil _ _
  rw [toList_text, words_intercalate hne (legible_words h)]
  simp

/-- A line writes an instruction: before its comment it has the words of the line that is written
for the instruction, with any spelling of numbers. -/
def Writes (line : List Char) (i : Instruction) : Prop :=
  ∃ code, Uncommented line code ∧ List.Forall₂ SameWord (words code) (words i.text.toList)

/-- A line that is read as an instruction writes that instruction. -/
lemma writes_of_ofLine? {line : List Char} {i : Instruction} (h : ofLine? line = some (.ok i)) :
    Writes line i := by
  refine ⟨_, uncommented_beforeComment line, ?_⟩
  rw [words_text (writable_of_ofLine? h), ← words_trim]
  rw [ofLine?] at h
  split at h
  · cases h
  · exact sameWords_of_ofWords (Option.some.inj h)

/-- The good lines are those that are read as instructions. -/
lemma decodeGood_eq (text : String) :
    decodeGood text = (lines text.toList).filterMap fun line =>
      (ofLine? line).bind Except.toOption := by
  have hitem (p : List Char × Nat) :
      ((ofLine? p.1).map (Except.mapError (DecodeError.mk p.2))).bind Except.toOption =
        (ofLine? p.1).bind Except.toOption := by
    rw [Option.bind_map]
    congr 1
    funext item
    cases item <;> rfl
  rw [decodeGood, decode, ofLines_eq, List.filterMap_filterMap]
  simp only [hitem]
  rw [← Function.comp_def (fun line => (ofLine? line).bind Except.toOption) Prod.fst,
    ← List.filterMap_map, List.zipIdx_map_fst]

/-- A line by itself has the instruction that it is read as, if there is one. -/
lemma decodeGood_line {line : List Char} (h : '\n' ∉ line) :
    decodeGood (String.ofList line) = ((ofLine? line).bind Except.toOption).toList := by
  rw [decodeGood_eq, String.toList_ofList, lines_line h]
  cases line with
  | nil => rfl
  | cons c line =>
    show List.filterMap _ [c :: line] = _
    rw [List.filterMap_cons, List.filterMap_nil]
    cases (ofLine? (c :: line)).bind Except.toOption <;> rfl

/-- The lines with an instruction write the instructions that are read, in their order. -/
lemma written_lines (text : String) :
    List.Forall₂ Writes
      ((lines text.toList).filter fun line => decodeGood (String.ofList line) ≠ [])
      (decodeGood text) := by
  rw [decodeGood_eq text]
  refine forall₂_filterMap ?_ ?_
  · intro line hm hg
    rw [decodeGood_line (newline_not_mem_of_mem_lines hm)] at hg
    simpa using hg
  · intro line hm hg
    rw [decodeGood_line (newline_not_mem_of_mem_lines hm)] at hg
    cases hl : ofLine? line with
    | none => exact absurd (by rw [hl]; rfl) hg
    | some found =>
      cases found with
      | ok i => exact ⟨i, rfl, writes_of_ofLine? hl⟩
      | error cause => exact absurd (by rw [hl]; rfl) hg

/-- A line without an instruction is blank or faulty. -/
lemma blank_or_faulty {line : List Char} (h : '\n' ∉ line)
    (hg : decodeGood (String.ofList line) = []) :
    BlankLine line ∨ ∃ cause, decode (String.ofList line) = [.error ⟨1, cause⟩] := by
  rw [decodeGood_line h] at hg
  rw [decode_line h]
  cases hl : ofLine? line with
  | none => exact .inl (ofLine?_eq_none_iff.1 hl)
  | some found =>
    rw [hl] at hg
    cases found with
    | ok i => cases hg
    | error cause => exact .inr ⟨cause, rfl⟩

/-- Where every line is good all instructions are read. -/
lemma decodeGood_of_map_ok {text : String} {is : List Instruction}
    (h : decode text = is.map .ok) : decodeGood text = is := by
  rw [decodeGood, h, List.filterMap_map]
  exact List.filterMap_some

/-- Every instruction that is read can be written. -/
lemma writable_of_mem_decodeGood {text : String} {i : Instruction} (h : i ∈ decodeGood text) :
    i.Writable := by
  obtain ⟨item, hm, hi⟩ := List.mem_filterMap.1 h
  cases item with
  | error e => cases hi
  | ok j =>
    cases hi
    exact writable_of_mem_decode hm

/-- The instructions of a text are read back from what is written for them, without a fault, and
writing them again writes the same. The text has one line for each of them, with the words that are
written but for the spelling of numbers; all its other lines are blank or faulty. -/
theorem listing_decodeGood_normal (text : String) :
    decode (listing (decodeGood text)) = (decodeGood text).map .ok ∧
    listing (decodeGood (listing (decodeGood text))) = listing (decodeGood text) ∧
    List.Forall₂ Writes
      ((lines text.toList).filter fun line => decodeGood (String.ofList line) ≠ [])
      (decodeGood text) ∧
    ∀ line ∈ lines text.toList, decodeGood (String.ofList line) = [] →
      BlankLine line ∨ ∃ cause, decode (String.ofList line) = [.error ⟨1, cause⟩] := by
  have hread : decode (listing (decodeGood text)) = (decodeGood text).map .ok :=
    decode_listing fun i => writable_of_mem_decodeGood
  refine ⟨hread, ?_, written_lines text, ?_⟩
  · rw [decodeGood_of_map_ok hread]
  · intro line hm hg
    exact blank_or_faulty (newline_not_mem_of_mem_lines hm) hg

/-- A number with a sign and a zero in front, a comment and a faulty line do not come back. -/
theorem listing_decodeGood_normal_seven :
    decode (listing (decodeGood "push constant +07 // seven\nbad\n\tneg\r\n")) =
        [.ok (.push .constant 7), .ok (.arithmetic .neg)] ∧
      (BlankLine "bad".toList ∨ ∃ cause, decode "bad" = [.error ⟨1, cause⟩]) := by
  have hread : decodeGood "push constant +07 // seven\nbad\n\tneg\r\n" =
      [.push .constant 7, .arithmetic .neg] := by
    decide +kernel
  have hm : "bad".toList ∈ lines "push constant +07 // seven\nbad\n\tneg\r\n".toList := by
    decide +kernel
  have hbad : decodeGood (String.ofList "bad".toList) = [] := by decide +kernel
  obtain ⟨hback, -, -, hother⟩ :=
    listing_decodeGood_normal "push constant +07 // seven\nbad\n\tneg\r\n"
  have hline := hother "bad".toList hm hbad
  rw [hread] at hback
  rw [String.ofList_toList] at hline
  exact ⟨by rw [hread, hback]; rfl, hline⟩

end Vm.Instruction

end Jack
