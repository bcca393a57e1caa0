import Jack.Proofs.Text.Lines
import Jack.Proofs.Vm.RoundTrip
import Mathlib.Data.List.Forall2
import Mathlib.Data.List.TakeWhile

/-!
# Program text is read line by line

Cutting a text behind a line feed cuts its lines into two lists (`Text.lines_append`), and each line
is read by itself. So reading a text is reading its two parts one after another, where the lines of
the second part count on from those of the first.
-/

namespace Jack

namespace Text

/-- A text of whole lines: empty, or with a line feed at its end. -/
def WholeLines (cs : List Char) : Prop := cs = [] ∨ cs.getLast? = some '\n'

/-- Behind a first line, whole lines are whole lines. -/
lemma WholeLines.of_cons {line rest : List Char} (h : WholeLines (line ++ '\n' :: rest)) :
    WholeLines rest := by
  cases rest with
  | nil => exact .inl rfl
  | cons c rest =>
    refine .inr ?_
    obtain h | h := h
    · simp at h
    · simpa [List.getLast?_append] using h

/-- Whole lines have as many lines as line feeds, and the lines of what follows come behind them. -/
lemma lines_append {a : List Char} (h : WholeLines a) (b : List Char) :
    lines (a ++ b) = lines a ++ lines b ∧ (lines a).length = a.count '\n' := by
  induction a using induction_on_lines with
  | last line hline =>
    obtain rfl : line = [] := h.resolve_right fun hl => hline (List.mem_of_getLast? hl)
    exact ⟨rfl, rfl⟩
  | cons line rest hline ih =>
    obtain ⟨happ, hlen⟩ := ih h.of_cons
    rw [List.append_assoc, List.cons_append, lines_cons hline, lines_cons hline, happ]
    refine ⟨rfl, ?_⟩
    rw [List.length_cons, hlen, List.count_append, List.count_cons_self,
      List.count_eq_zero.2 hline, Nat.zero_add]

/-- A line is the one line of its text, unless it is empty. -/
lemma lines_line {line : List Char} (h : '\n' ∉ line) :
    lines line = if line.isEmpty then [] else [line] := by
  rw [lines, pieces_line h]
  rfl

/-- A line has no line feed. -/
lemma newline_not_mem_of_mem_lines {cs line : List Char} (h : line ∈ lines cs) : '\n' ∉ line := by
  induction cs using induction_on_lines with
  | last text htext =>
    rw [lines_line htext] at h
    split at h
    · cases h
    · rwa [List.mem_singleton.1 h]
  | cons first rest hfirst ih =>
    rw [lines_cons hfirst] at h
    obtain rfl | h := List.mem_cons.1 h
    · unfold dropReturn
      split
      · exact fun hm => hfirst (List.dropLast_subset first hm)
      · exact hfirst
    · exact ih h

/-- A line that holds nothing but blanks before its comment. -/
def BlankLine (line : List Char) : Prop :=
  ∃ code, Uncommented line code ∧ ∀ c ∈ code, isBlank c = true

/-- Only blanks are trimmed to nothing. -/
lemma trim_eq_nil_iff {cs : List Char} : trim cs = [] ↔ ∀ c ∈ cs, isBlank c = true := by
  simp only [trim, List.reverse_eq_nil_iff, List.dropWhile_eq_nil_iff, List.mem_reverse]
  constructor
  · intro h c hc
    rw [← List.takeWhile_append_dropWhile (p := isBlank) (l := cs)] at hc
    obtain hc | hc := List.mem_append.1 hc
    · exact List.all_eq_true.1 List.all_takeWhile c hc
    · exact h c hc
  · intro h c hc
    exact h c ((List.dropWhile_sublist isBlank).subset hc)

end Text

namespace Vm

/-- The fault `k` lines further down. -/
def DecodeError.moved (k : Nat) (e : DecodeError) : DecodeError := { e with line := e.line + k }

namespace Instruction

open Text

/-! ### Comments -/

/-- What stands before the first two slashes is kept. -/
lemma beforeComment_append {code : List Char} (h : ¬ ['/', '/'] <:+: code ++ ['/'])
    (text acc : List Char) :
    beforeComment acc (code ++ '/' :: '/' :: text) = acc.reverse ++ code := by
  induction code generalizing acc with
  | nil => rw [List.nil_append, beforeComment, List.append_nil]
  | cons c code ih =>
    rw [List.cons_append, List.infix_cons_iff, not_or] at h
    rw [List.cons_append, beforeComment, ih h.2, List.reverse_cons, List.append_assoc]
    · rfl
    · rintro cs rfl hcs
      apply h.1
      cases code with
      | nil => exact List.prefix_rfl
      | cons d code =>
        obtain ⟨rfl, -⟩ := List.cons.inj hcs
        exact ⟨code ++ ['/'], rfl⟩

/-- The code of a line is what stands before its comment. -/
lemma uncommented_iff {line code : List Char} :
    Uncommented line code ↔ beforeComment [] line = code := by
  constructor
  · intro h
    cases h with
    | plain hi => exact beforeComment_eq hi []
    | comment _ text hi => exact beforeComment_append hi text []
  · rintro rfl
    exact uncommented_beforeComment line

/-- A line is blank if there are only blanks before its comment. -/
lemma blankLine_iff {line : List Char} :
    BlankLine line ↔ ∀ c ∈ beforeComment [] line, isBlank c = true := by
  simp [BlankLine, uncommented_iff]

instance (line : List Char) : Decidable (BlankLine line) :=
  decidable_of_iff ((beforeComment [] line).all isBlank = true)
    (List.all_eq_true.trans blankLine_iff.symm)

/-- Nothing is read from blank lines, and from no others. -/
lemma ofLine?_eq_none_iff {line : List Char} : ofLine? line = none ↔ BlankLine line := by
  rw [blankLine_iff, ← trim_eq_nil_iff, ofLine?]
  simp

/-! ### Lines -/

/-- Lines are read one by one, and those without an instruction are left out. -/
lemma ofLines_eq (numbered : List (List Char × Nat)) :
    ofLines numbered = numbered.filterMap fun p =>
      (ofLine? p.1).map (Except.mapError (DecodeError.mk p.2)) := by
  refine List.filterMap_congr fun p _ => congrArg (fun f => Option.map f (ofLine? p.1)) ?_
  funext item
  cases item <;> rfl

/-- Lines in two parts are read part by part. -/
lemma ofLines_append (as bs : List (List Char × Nat)) :
    ofLines (as ++ bs) = ofLines as ++ ofLines bs := List.filterMap_append

/-- Lines counted from further on have greater numbers. -/
lemma zipIdx_add (ls : List (List Char)) (n k : Nat) :
    ls.zipIdx (n + k) = (ls.zipIdx n).map fun p => (p.1, p.2 + k) := by
  induction k with
  | zero => simp
  | succ k ih =>
    rw [← Nat.add_assoc, List.zipIdx_succ, ih, List.map_map]
    rfl

/-- Lines that are counted from further on hold the same, with the faults further down. -/
lemma ofLines_zipIdx_add (ls : List (List Char)) (n k : Nat) :
    ofLines (ls.zipIdx (n + k)) =
      (ofLines (ls.zipIdx n)).map (Except.mapError (DecodeError.moved k)) := by
  rw [zipIdx_add, ofLines_eq, ofLines_eq, List.filterMap_map, List.map_filterMap]
  refine List.filterMap_congr fun p _ => ?_
  simp only [Function.comp_apply, Option.map_map]
  congr 1
  funext item
  cases item <;> rfl

/-- Behind whole lines a text is read as it is, with later numbers in its errors. -/
lemma decode_append {a : String} (h : WholeLines a.toList) (b : String) :
    decode (a ++ b) =
      decode a ++ (decode b).map (Except.mapError (DecodeError.moved (a.toList.count '\n'))) := by
  obtain ⟨happ, hlen⟩ := lines_append h b.toList
  rw [decode, decode, decode, String.toList_append, happ, List.zipIdx_append, ofLines_append, hlen,
    ofLines_zipIdx_add]

/-- A line by itself holds at most one item. -/
lemma decode_line {line : List Char} (h : '\n' ∉ line) :
    decode (String.ofList line) =
      ((ofLine? line).map (Except.mapError (DecodeError.mk 1))).toList := by
  rw [decode, String.toList_ofList, lines_line h, ofLines_eq]
  cases line with
  | nil => rfl
  | cons c line =>
    show List.filterMap _ [(c :: line, 1)] = _
    rw [List.filterMap_cons, List.filterMap_nil]
    cases ofLine? (c :: line) <;> rfl

/-- The items that pass a test match the values that are found for them. -/
lemma forall₂_filterMap {α β : Type} {R : α → β → Prop} {p : α → Prop} [DecidablePred p]
    {f : α → Option β} {xs : List α} (hn : ∀ x ∈ xs, ¬ p x → f x = none)
    (hs : ∀ x ∈ xs, p x → ∃ y, f x = some y ∧ R x y) :
    List.Forall₂ R (xs.filter p) (xs.filterMap f) := by
  induction xs with
  | nil => exact .nil
  | cons x xs ih =>
    obtain ⟨hnx, hn⟩ := List.forall_mem_cons.1 hn
    obtain ⟨hsx, hs⟩ := List.forall_mem_cons.1 hs
    by_cases hx : p x
    · obtain ⟨y, hy, hr⟩ := hsx hx
      rw [List.filter_cons_of_pos (by simpa using hx), List.filterMap_cons_some hy]
      exact .cons hr (ih hn hs)
    · rw [List.filter_cons_of_neg (by simpa using hx), List.filterMap_cons_none (hnx hx)]
      exact ih hn hs

/-- The item of a line with a number is the one that the line has by itself, a fault under the
number of the line. -/
def ItemOf (numbered : List Char × Nat) (item : Except DecodeError Instruction) : Prop :=
  (∃ i, decode (String.ofList numbered.1) = [.ok i] ∧ item = .ok i) ∨
    ∃ cause, decode (String.ofList numbered.1) = [.error ⟨1, cause⟩] ∧
      item = .error ⟨numbered.2, cause⟩

/-- The items are those of the lines that are not blank, one for each, in their order. -/
lemma items_of_lines (text : String) :
    List.Forall₂ ItemOf (((lines text.toList).zipIdx 1).filter fun p => ¬ BlankLine p.1)
      (decode text) := by
  rw [decode, ofLines_eq]
  refine forall₂_filterMap ?_ ?_
  · rintro ⟨line, number⟩ - hb
    rw [ofLine?_eq_none_iff.2 (not_not.1 hb)]
    rfl
  · rintro ⟨line, number⟩ hm hb
    have hd := decode_line (newline_not_mem_of_mem_lines (List.fst_mem_of_mem_zipIdx hm))
    cases hl : ofLine? line with
    | none => exact absurd (ofLine?_eq_none_iff.1 hl) hb
    | some found =>
      rw [hl] at hd
      cases found with
      | ok i => exact ⟨_, rfl, .inl ⟨i, hd, rfl⟩⟩
      | error cause => exact ⟨_, rfl, .inr ⟨cause, hd, rfl⟩⟩

/-- Moving errors down twice moves them down by both. -/
lemma mapError_moved_moved (j k : Nat) (item : Except DecodeError Instruction) :
    Except.mapError (DecodeError.moved j) (Except.mapError (DecodeError.moved k) item) =
      Except.mapError (DecodeError.moved (j + k)) item := by
  cases item with
  | ok i => rfl
  | error e =>
    show Except.error (DecodeError.mk (e.line + k + j) e.cause) = _
    rw [Nat.add_assoc, Nat.add_comm k]
    rfl

/-- Between whole lines and more text, a line adds its own items and nothing else. -/
lemma decode_append_line {a : String} (h : WholeLines a.toList) {line : String}
    (hline : '\n' ∉ line.toList) (b : String) :
    decode (a ++ (line ++ "\n" ++ b)) = decode a ++
      ((decode (line ++ "\n")).map (Except.mapError (DecodeError.moved (a.toList.count '\n'))) ++
        (decode b).map (Except.mapError (DecodeError.moved (a.toList.count '\n' + 1)))) := by
  have hw : WholeLines (line ++ "\n").toList := by
    refine .inr ?_
    simp
  have hc : (line ++ "\n").toList.count '\n' = 1 := by
    rw [String.toList_append, List.count_append, List.count_eq_zero.2 hline]
    rfl
  rw [decode_append h, decode_append hw, hc, List.map_append, List.map_map]
  simp only [Function.comp_def, mapError_moved_moved]

/-- Reading whole lines and more text behind them reads the two one after another, the lines of the
second counted on from those of the first. So another line in the place of a line changes the items
of no other line. The items are those of the lines that are not blank, one for each, in their order
and each with the number of its line. -/
theorem decode_linewise :
    (∀ a b : String, WholeLines a.toList →
      decode (a ++ b) =
        decode a ++ (decode b).map (Except.mapError (DecodeError.moved (a.toList.count '\n')))) ∧
    (∀ a line b : String, WholeLines a.toList → '\n' ∉ line.toList →
      decode (a ++ (line ++ "\n" ++ b)) = decode a ++
        ((decode (line ++ "\n")).map (Except.mapError (DecodeError.moved (a.toList.count '\n'))) ++
          (decode b).map (Except.mapError (DecodeError.moved (a.toList.count '\n' + 1))))) ∧
    ∀ text : String,
      List.Forall₂ ItemOf (((lines text.toList).zipIdx 1).filter fun p => ¬ BlankLine p.1)
        (decode text) :=
  ⟨fun _ b h => decode_append h b, fun _ _ b h hline => decode_append_line h hline b,
    items_of_lines⟩

/-- Behind a carriage return, a comment and a fault, lines are counted and read as before. -/
theorem decode_linewise_faults :
    decode ("push constant 1\r\n// one\n" ++ "pop constant 0\n\u00A0neg // two") =
      [.ok (.push .constant 1), .error ⟨3, .popConstant⟩, .ok (.arithmetic .neg)] ∧
    decode ("neg\n" ++ ("oops" ++ "\n" ++ "not")) =
      [.ok (.arithmetic .neg), .error ⟨2, .unknownCommand "oops"⟩, .ok (.arithmetic .not)] := by
  have ha : decode "push constant 1\r\n// one\n" = [.ok (.push .constant 1)] := by decide +kernel
  have hb : decode "pop constant 0\n\u00A0neg // two" =
      [.error ⟨1, .popConstant⟩, .ok (.arithmetic .neg)] := by
    decide +kernel
  have hc : decode ("oops" ++ "\n") = [.error ⟨1, .unknownCommand "oops"⟩] := by decide +kernel
  have hd : decode "neg\n" = [.ok (.arithmetic .neg)] ∧
      decode "not" = [.ok (.arithmetic .not)] := by
    decide +kernel
  constructor
  · rw [decode_linewise.1 _ _ (.inr (by decide)), ha, hb]
    rfl
  · rw [decode_linewise.2.1 _ _ _ (.inr (by decide)) (by decide), hc, hd.1, hd.2]
    rfl

end Instruction

end Vm

end Jack
