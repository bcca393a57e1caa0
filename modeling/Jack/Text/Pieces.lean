/-!
# Pieces of a text

Cutting a list at the elements of a class. Lines, words and the parts of a path are all pieces:
lines are cut at line feeds, words at blanks, and the bytes of a path at its slashes.
-/

namespace Jack.Text

variable {α : Type}

/-- The maximal runs of elements outside `p`, empty ones included, in order. -/
def pieces (p : α → Bool) (cs : List α) : List (List α) :=
  cs.foldr
    (fun c acc =>
      if p c then [] :: acc
      else match acc with
        | [] => [[c]]
        | l :: ls => (c :: l) :: ls)
    [[]]

/-- The empty text is one empty piece. -/
@[simp] theorem pieces_nil (p : α → Bool) : pieces p [] = [[]] := rfl

/-- A list that starts with an element of the class has an empty first piece. -/
theorem pieces_cons_of_pos {p : α → Bool} {c : α} (h : p c = true) (cs : List α) :
    pieces p (c :: cs) = [] :: pieces p cs := by
  simp [pieces, h]

/-- There is always a first piece. -/
theorem pieces_ne_nil (p : α → Bool) (cs : List α) : pieces p cs ≠ [] := by
  induction cs with
  | nil => simp
  | cons c cs ih =>
    by_cases h : p c
    · simp [pieces_cons_of_pos h]
    · rw [pieces, List.foldr_cons, if_neg h]
      split <;> simp

/-- Any other element in front belongs to the first piece. -/
theorem pieces_cons_of_neg {p : α → Bool} {c : α} (h : p c = false) {cs l : List α}
    {ls : List (List α)} (hcs : pieces p cs = l :: ls) :
    pieces p (c :: cs) = (c :: l) :: ls := by
  have hf : pieces p (c :: cs) =
      match pieces p cs with
      | [] => [[c]]
      | l :: ls => (c :: l) :: ls := by
    simp [pieces, h]
  rw [hf, hcs]

/-- A list is cut at each element of the class, whatever stands around it. -/
theorem pieces_append_cons {p : α → Bool} {c : α} (h : p c = true) (as bs : List α) :
    pieces p (as ++ c :: bs) = pieces p as ++ pieces p bs := by
  induction as with
  | nil => exact pieces_cons_of_pos h bs
  | cons a as ih =>
    rw [List.cons_append]
    by_cases ha : p a
    · rw [pieces_cons_of_pos ha, pieces_cons_of_pos ha, ih, List.cons_append]
    · obtain ⟨l, ls, hl⟩ := List.exists_cons_of_ne_nil (pieces_ne_nil p as)
      have ha' : p a = false := by simpa using ha
      rw [pieces_cons_of_neg ha' hl,
        pieces_cons_of_neg ha' (ih.trans (by rw [hl, List.cons_append])), List.cons_append]

/-- A list without elements of the class is one piece. -/
theorem pieces_eq_singleton {p : α → Bool} {cs : List α} (h : ∀ c ∈ cs, p c = false) :
    pieces p cs = [cs] := by
  induction cs with
  | nil => rfl
  | cons c cs ih =>
    have hcs := ih fun d hd => h d (List.mem_cons_of_mem c hd)
    exact pieces_cons_of_neg (h c List.mem_cons_self) hcs

/-- No piece holds an element of the class. -/
theorem eq_false_of_mem_pieces {p : α → Bool} {cs w : List α} (h : w ∈ pieces p cs) :
    ∀ c ∈ w, p c = false := by
  induction cs generalizing w with
  | nil =>
    obtain rfl := List.mem_singleton.1 h
    simp
  | cons c cs ih =>
    obtain ⟨l, ls, hp⟩ := List.exists_cons_of_ne_nil (pieces_ne_nil p cs)
    by_cases hc : p c = true
    · rw [pieces_cons_of_pos hc] at h
      obtain rfl | h := List.mem_cons.1 h
      · simp
      · exact ih h
    · rw [Bool.not_eq_true] at hc
      rw [pieces_cons_of_neg hc hp] at h
      rw [hp] at ih
      obtain rfl | h := List.mem_cons.1 h
      · exact List.forall_mem_cons.2 ⟨hc, ih List.mem_cons_self⟩
      · exact ih (List.mem_cons_of_mem l h)

end Jack.Text
