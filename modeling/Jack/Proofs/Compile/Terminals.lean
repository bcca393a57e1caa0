import Jack.Proofs.Compile.Names
import Jack.Proofs.Compile.Recording
import Jack.Proofs.Parse.Nesting
import Mathlib.Data.List.Nodup

/-!
# The terminals of a recorded tree

A recorded tree has one line for each token taken, and it is the line that the token has in the
listing of tokens. Lines of tokens hold a blank, which no tag of a node does, and no line feed, as
string constants end with their line. So the text of the tree, whole or not, can be cut into lines
again, and without its tags it is the listing of the tokens taken.
-/

namespace Jack

open Text Script Jack.Action Grammar

/-! ## Reading the text of a tree -/

/-- The text of a mark in the tree, without its indentation. -/
def Mark.text : Mark → String
  | .opened node => "<" ++ node.tag ++ ">"
  | .closed node => "</" ++ node.tag ++ ">"
  | .leaf kind => terminal kind

/-- The nodes that a parse tree can have. -/
def Node.all : List Node :=
  [.wholeClass, .classVarDec, .subroutineDec, .parameterList, .subroutineBody, .varDec,
    .statements, .letStatement, .ifStatement, .whileStatement, .doStatement, .returnStatement,
    .expression, .term, .expressionList]

/-- What a line without indentation opens or closes. -/
def tagOf? (line : List Char) : Option Mark :=
  (Node.all.map Mark.opened ++ Node.all.map Mark.closed).find? (·.text.toList = line)

/-- The lines of a tree without their indentation. -/
def unindented (text : String) : List (List Char) :=
  (lines text.toList).map (·.dropWhile (· = ' '))

/-- The lines of a tree that neither open nor close a node. -/
def terminalLines (text : String) : List (List Char) :=
  (unindented text).filter fun line => (tagOf? line).isNone

/-- The nodes open after lines, innermost first, if each line that closes a node closes the
innermost one. -/
def openNodes? (nodes : List Node) : List (List Char) → Option (List Node)
  | [] => some nodes
  | line :: lines =>
    match tagOf? line with
    | some (.opened node) => openNodes? (node :: nodes) lines
    | some (.closed node) =>
      if nodes.head? = some node then openNodes? nodes.tail lines else none
    | _ => openNodes? nodes lines

/-- Reading lines in two parts, the second starts with what the first leaves open. -/
lemma openNodes?_append (nodes : List Node) (ls ms : List (List Char)) :
    openNodes? nodes (ls ++ ms) = (openNodes? nodes ls).bind (openNodes? · ms) := by
  induction ls generalizing nodes with
  | nil => rfl
  | cons l ls ih =>
    rw [List.cons_append, openNodes?, openNodes?]
    split
    · exact ih _
    · split
      · exact ih _
      · rfl
    · exact ih _

/-! ## Tags -/

namespace Node

/-- Every node is among all nodes. -/
lemma mem_all (node : Node) : node ∈ all := by
  cases node <;> decide

/-- Different nodes have different tags. -/
lemma tag_injective {a b : Node} (h : a.tag = b.tag) : a = b := by
  have hd : (all.map tag).Nodup := by decide +kernel
  exact List.inj_on_of_nodup_map hd a.mem_all b.mem_all h

/-- Tags are made of letters. -/
lemma isAlpha_tag (node : Node) : ∀ c ∈ node.tag.toList, c.isAlpha = true := by
  cases node <;> simp [tag]

end Node

/-- The text of an opened node starts with an angle bracket. -/
lemma toList_opened (node : Node) :
    (Mark.opened node).text.toList = '<' :: (node.tag.toList ++ ['>']) := by
  simp [Mark.text]

/-- The text of a closed node starts with an angle bracket and a slash. -/
lemma toList_closed (node : Node) :
    (Mark.closed node).text.toList = '<' :: '/' :: (node.tag.toList ++ ['>']) := by
  simp [Mark.text]

/-- No opened node has the text of a closed one. -/
lemma opened_ne_closed (a b : Node) : (Mark.opened a).text ≠ (Mark.closed b).text := by
  intro h
  have hl := congrArg String.toList h
  rw [toList_opened, toList_closed] at hl
  have ht := (List.cons.inj hl).2
  -- A name starts with a letter, and no letter is the slash of a closing tag.
  cases hc : a.tag.toList with
  | nil =>
    rw [hc] at ht
    cases ht
  | cons c cs =>
    rw [hc] at ht
    have ha := a.isAlpha_tag c (hc ▸ List.mem_cons_self)
    rw [(List.cons.inj ht).1] at ha
    exact absurd ha (by decide)

/-- Marks of nodes are told apart by their texts. -/
lemma Mark.text_injective {m n : Mark} (hm : m.kind? = none) (hn : n.kind? = none)
    (h : m.text = n.text) : m = n := by
  have hl := congrArg String.toList h
  cases m with
  | leaf kind => cases hm
  | opened a =>
    cases n with
    | leaf kind => cases hn
    | opened b =>
      rw [toList_opened, toList_opened] at hl
      have ht := List.append_cancel_right (List.cons.inj hl).2
      rw [Node.tag_injective (String.toList_inj.1 ht)]
    | closed b => exact absurd h (opened_ne_closed a b)
  | closed a =>
    cases n with
    | leaf kind => cases hn
    | opened b => exact absurd h.symm (opened_ne_closed b a)
    | closed b =>
      rw [toList_closed, toList_closed] at hl
      have ht := List.append_cancel_right (List.cons.inj (List.cons.inj hl).2).2
      rw [Node.tag_injective (String.toList_inj.1 ht)]

/-- The marks of nodes are those that have no token. -/
lemma mem_tags {m : Mark} :
    m ∈ Node.all.map Mark.opened ++ Node.all.map Mark.closed ↔ m.kind? = none := by
  cases m with
  | opened node => simp [Mark.kind?, node.mem_all]
  | closed node => simp [Mark.kind?, node.mem_all]
  | leaf kind => simp [Mark.kind?]

/-- A tag is read as what it was written for. -/
lemma tagOf?_text {m : Mark} (hm : m.kind? = none) : tagOf? m.text.toList = some m := by
  have hs : (tagOf? m.text.toList).isSome := by
    rw [tagOf?, List.find?_isSome]
    exact ⟨m, mem_tags.2 hm, by simp⟩
  obtain ⟨n, hn⟩ := Option.isSome_iff_exists.1 hs
  have ht : n.text.toList = m.text.toList := by simpa using List.find?_some hn
  rw [hn, Mark.text_injective (mem_tags.1 (List.mem_of_find?_eq_some hn)) hm
    (String.toList_inj.1 ht)]

/-- The text of the mark of a node has no space. -/
lemma space_not_mem_tag {m : Mark} (hm : m.kind? = none) : ' ' ∉ m.text.toList := by
  have hs : ∀ node : Node, ' ' ∉ node.tag.toList := fun node hc =>
    absurd (node.isAlpha_tag ' ' hc) (by decide)
  cases m with
  | opened node => simp [toList_opened, hs]
  | closed node => simp [toList_closed, hs]
  | leaf kind => cases hm

/-- A line with a blank in it is no tag. -/
lemma tagOf?_eq_none {line : List Char} (h : ' ' ∈ line) : tagOf? line = none := by
  rw [tagOf?, List.find?_eq_none]
  intro m hm he
  have ht : m.text.toList = line := by simpa using he
  exact space_not_mem_tag (mem_tags.1 hm) (ht ▸ h)

/-! ## Lines -/

/-- A line that stands between brackets and has no line feed in it. -/
def Bracketed (line : List Char) : Prop := ∃ inner, line = '<' :: (inner ++ ['>']) ∧ '\n' ∉ inner

/-- A token that has a line in the listing. -/
def TokenKind.Listed (k : TokenKind) : Prop := ∃ e, k.element? = some e ∧ '\n' ∉ e.value.toList

/-- A character is written with a line feed only if it is one. -/
lemma eq_newline_of_mem_markupChar {c : Char} (h : '\n' ∈ (markupChar c).toList) : c = '\n' := by
  rw [markupChar] at h
  repeat' split at h
  · exact absurd h (by decide)
  · exact absurd h (by decide)
  · exact absurd h (by decide)
  · exact absurd h (by decide)
  · simpa [Char.toString, eq_comm] using h

/-- A text without line feeds is written without them. -/
lemma newline_not_mem_markupText {value : String} (h : '\n' ∉ value.toList) :
    '\n' ∉ (markupText value).toList := by
  intro hm
  rw [markupText, foldl_append_eq_join, String.toList_append, String.toList_join] at hm
  obtain ⟨s, hs, hc⟩ := List.mem_flatMap.1 ((List.mem_append.1 hm).resolve_left (by simp))
  obtain ⟨c, hv, rfl⟩ := List.mem_map.1 hs
  exact h (eq_newline_of_mem_markupChar hc ▸ hv)

/-- A listed token is written in angle brackets, on one line and with a space. -/
lemma TokenKind.Listed.exists_terminal {k : TokenKind} (h : k.Listed) :
    ∃ inner, (terminal k).toList = '<' :: (inner ++ ['>']) ∧ '\n' ∉ inner ∧ ' ' ∈ inner := by
  obtain ⟨e, he, hv⟩ := h
  have ht : '\n' ∉ e.tag.toList := by
    cases k <;> cases he <;> simp
  rw [terminal_of_element he]
  refine ⟨e.tag.toList ++ '>' :: ' ' :: ((markupText e.value).toList ++ ' ' :: '<' :: '/' ::
    e.tag.toList), ?_, ?_, ?_⟩
  · simp [Element.text]
  · simp [ht, newline_not_mem_markupText hv]
  · simp

/-- The line of a token is no tag. -/
lemma TokenKind.Listed.tagOf?_terminal {k : TokenKind} (h : k.Listed) :
    tagOf? (terminal k).toList = none := by
  obtain ⟨inner, ht, -, hs⟩ := h.exists_terminal
  apply tagOf?_eq_none
  rw [ht]
  exact List.mem_cons_of_mem _ (List.mem_append_left _ hs)

/-- The text of a mark stands in angle brackets. -/
lemma bracketed_text {m : Mark} (h : ∀ k, m.kind? = some k → k.Listed) :
    Bracketed m.text.toList := by
  have hs : ∀ node : Node, '\n' ∉ node.tag.toList := fun node hc =>
    absurd (node.isAlpha_tag '\n' hc) (by decide)
  cases m with
  | opened node => exact ⟨node.tag.toList, toList_opened node, hs node⟩
  | closed node =>
    refine ⟨'/' :: node.tag.toList, toList_closed node, ?_⟩
    simp [hs]
  | leaf kind =>
    obtain ⟨inner, ht, hn, -⟩ := (h kind rfl).exists_terminal
    exact ⟨inner, ht, hn⟩

/-- A line is found again without its indentation. -/
lemma Bracketed.indented {line : List Char} (h : Bracketed line) (depth : Nat) :
    ((indent depth).toList ++ line).dropWhile (· = ' ') = line ∧
      (∀ c ∈ (indent depth).toList ++ line, c ≠ '\n') ∧
      ((indent depth).toList ++ line).getLast? ≠ some '\r' := by
  obtain ⟨inner, rfl, hn⟩ := h
  have hi : (indent depth).toList = List.replicate (2 * depth) ' ' := by simp [indent]
  rw [hi]
  refine ⟨?_, ?_, ?_⟩
  · rw [List.dropWhile_append_of_pos (by simp)]
    rfl
  · rintro _ hc rfl
    simp [hn] at hc
  · rw [← List.cons_append, ← List.append_assoc, List.getLast?_concat]
    decide

namespace Tree

/-- The lines so far without their indentation. -/
def bareLines (t : Tree) : List String := t.lines.toList.map fun l => l.2.text

/-- A mark is recorded as one line. -/
lemma bareLines_record (t : Tree) {m : Mark} (h : ∀ k, m.kind? = some k → k.Listed) :
    (t.record m).bareLines = t.bareLines ++ [m.text] := by
  cases m with
  | opened node => simp [record, openNode, bareLines, TreeLine.text, Mark.text]
  | closed node => simp [record, closeNode, bareLines, TreeLine.text, Mark.text]
  | leaf kind =>
    obtain ⟨e, he, -⟩ := h kind rfl
    simp [record, addToken, TokenKind.bare, he, bareLines, TreeLine.text, Mark.text,
      terminal_of_element he]

/-- Recording marks adds their texts to the lines without indentation. -/
lemma bareLines_recordAll (t : Tree) {ms : List Mark}
    (h : ∀ m ∈ ms, ∀ k, m.kind? = some k → k.Listed) :
    (t.recordAll ms).bareLines = t.bareLines ++ ms.map Mark.text := by
  induction ms generalizing t with
  | nil => simp
  | cons m ms ih =>
    obtain ⟨hm, hms⟩ := List.forall_mem_cons.1 h
    rw [recordAll_cons, ih _ hms, t.bareLines_record hm]
    simp

/-- The text of a tree is cut into its lines again. -/
lemma unindented_text {t : Tree} (h : ∀ s ∈ t.bareLines, Bracketed s.toList) :
    unindented t.text = t.bareLines.map String.toList := by
  have hb : ∀ l ∈ t.lines.toList, Bracketed l.2.text.toList := by
    intro l hl
    exact h _ (List.mem_map_of_mem hl)
  have ht : t.text.toList =
      (t.lines.toList.map fun l => (indent l.1).toList ++ l.2.text.toList).flatMap
        (· ++ ['\n']) := by
    rw [text_eq, String.toList_join, shown]
    simp [List.flatMap_map]
  rw [unindented, ht, lines_terminated, bareLines, List.map_map, List.map_map]
  · apply List.map_congr_left
    intro l hl
    exact ((hb l hl).indented l.1).1
  · intro _ hm
    obtain ⟨l, hl, rfl⟩ := List.mem_map.1 hm
    exact ((hb l hl).indented l.1).2

end Tree

/-! ## Tokens of a source -/

/-- A line feed in a text that is read comes from a line feed. -/
lemma Text.Utf8.Decoded.mem_of_newline {bs : List UInt8} {cs : List Char} (h : Utf8.Decoded bs cs)
    (hc : '\n' ∈ cs) : 0x0A ∈ bs := by
  induction h with
  | nil => cases hc
  | char c _ ih =>
    obtain rfl | hc := List.mem_cons.1 hc
    · exact List.mem_append_left _ (by decide)
    · exact List.mem_append_right _ (ih hc)
  | broken _ _ ih =>
    obtain he | hc := List.mem_cons.1 hc
    · exact absurd he (by decide)
    · exact List.mem_append_right _ (ih hc)

/-- A plain name has no line feed. -/
lemma newline_not_mem_of_plain {name : String} (h : Plain name) : '\n' ∉ name.toList := by
  intro hc
  exact absurd (h '\n' hc).1 (by decide)

/-- A token that is spelled out is on one line. -/
lemma Spells.newline_not_mem {w rest : List UInt8} {k : TokenKind} {e : Element}
    (h : Spells w rest k) (he : k.element? = some e) : '\n' ∉ e.value.toList := by
  cases h with
  | keyword hw _ _ =>
    cases he
    exact newline_not_mem_of_plain (plain_keyword _)
  | identifier hw hb _ =>
    cases he
    subst hb
    exact newline_not_mem_of_plain (plain_of_word hw)
  | @symbol c _ hc _ =>
    cases he
    intro hn
    obtain rfl : c = '\n' := by simpa [Char.toString, eq_comm] using hn
    exact absurd hc (by decide)
  | integer _ _ =>
    cases he
    intro hc
    exact absurd (Vm.Instruction.isDigit_of_mem_repr hc) (by decide)
  | string hq hd =>
    cases he
    intro hc
    exact (hq _ (hd.mem_of_newline hc)).2.1 rfl
  | _ => cases he

/-- The value of a token has no line feed, whatever the bytes. -/
lemma newline_not_mem_of_tokensOfBytes (source : List UInt8) : ∀ t ∈ tokensOfBytes source,
    ∀ e, t.kind.element? = some e → '\n' ∉ e.value.toList :=
  forall_kind_tokensOfBytes
    (P := fun k => ∀ e, k.element? = some e → '\n' ∉ e.value.toList) nofun
    (fun h _ he => h.newline_not_mem he) source

/-- The value of a token of a source has no line feed. -/
lemma newline_not_mem_of_tokensOf (source : String) : ∀ t ∈ tokensOf source,
    ∀ e, t.kind.element? = some e → '\n' ∉ e.value.toList :=
  newline_not_mem_of_tokensOfBytes (Utf8.bytes source)

/-! ## The listing -/

/-- A token with an element is listed on a line of its own. -/
lemma elementsOnto_cons {t : Token} {e : Element} (he : t.kind.element? = some e) (out : String)
    (ts : List Token) : elementsOnto out (t :: ts) = elementsOnto (out ++ e.text ++ "\n") ts := by
  rw [elementsOnto]
  split
  · next cause hk =>
    rw [hk] at he
    cases he
  · rw [he]

/-- Tokens with elements are listed one to a line. -/
lemma elementsOnto_append {ts : List Token} (h : ∀ t ∈ ts, t.kind.Listed) (out : String)
    (rest : List Token) :
    elementsOnto out (ts ++ rest) =
      elementsOnto (out ++ String.join (ts.map fun t => terminal t.kind ++ "\n")) rest := by
  induction ts generalizing out with
  | nil => simp
  | cons t ts ih =>
    obtain ⟨⟨e, he, -⟩, hts⟩ := List.forall_mem_cons.1 h
    rw [List.cons_append, elementsOnto_cons he, ih hts, ← terminal_of_element he]
    simp [String.append_assoc]

/-- The listing of tokens ends at the end of the input. -/
lemma elementsOnto_of_eof {rest : List Token} (h : currentKind rest = .eof) (out : String) :
    elementsOnto out rest = .ok out := by
  cases rest with
  | nil => rfl
  | cons t ts =>
    have hk : t.kind = .eof := h
    simp [elementsOnto, hk, TokenKind.element?]

/-- The listing of tokens in front of the end of the input. -/
lemma tokenListing_eq {ts rest : List Token} (h : ∀ t ∈ ts, t.kind.Listed)
    (hr : currentKind rest = .eof) :
    tokenListing (ts ++ rest) =
      .ok ("<tokens>\n" ++ String.join (ts.map fun t => terminal t.kind ++ "\n") ++
        "</tokens>\n") := by
  rw [tokenListing, elementsOnto_append h, elementsOnto_of_eof hr]
  rfl

/-! ## Marks and lines -/

/-- Without the tags, the lines of the tokens are left. -/
lemma filter_texts {ms : List Mark} (h : ∀ m ∈ ms, ∀ k, m.kind? = some k → k.Listed) :
    (ms.map fun m => m.text.toList).filter (fun line => (tagOf? line).isNone) =
      (ms.filterMap Mark.kind?).map fun k => (terminal k).toList := by
  induction ms with
  | nil => rfl
  | cons m ms ih =>
    obtain ⟨hm, hms⟩ := List.forall_mem_cons.1 h
    cases hk : m.kind? with
    | none =>
      rw [List.map_cons, List.filter_cons_of_neg (by simp [tagOf?_text hk]), ih hms,
        List.filterMap_cons_none hk]
    | some k =>
      obtain rfl : m = .leaf k := by
        cases m <;> cases hk
        rfl
      have hn : tagOf? (Mark.leaf k).text.toList = none := (hm k hk).tagOf?_terminal
      rw [List.map_cons, List.filter_cons_of_pos (by simp [hn]), ih hms,
        List.filterMap_cons_some hk]
      rfl

namespace Nesting

variable {s t : Nesting}

/-- Nodes are opened and closed by marks only. -/
lemma nodes_of_next? {a : Action} (ha : a.mark? = none) (hn : s.next? a = some t) :
    t.nodes = s.nodes := by
  cases a with
  | consume _ | openNode _ | closeNode _ => cases ha
  | branchElse | branchEnd | loopTop | loopEnd =>
    rw [next?] at hn
    split at hn
    · cases hn
      rfl
    · cases hn
  | emit i =>
    cases i <;> cases hn
    all_goals rfl
  | _ =>
    cases hn
    rfl

/-- The lines of actions close the innermost node as the actions do. -/
lemma openNodes?_marks {as : List Action}
    (h : ∀ m ∈ marks as, ∀ k, m.kind? = some k → k.Listed) (hr : s.run? as = some t) :
    openNodes? s.nodes ((marks as).map fun m => m.text.toList) = some t.nodes := by
  induction as generalizing s with
  | nil =>
    cases hr
    rfl
  | cons a as ih =>
    obtain ⟨v, hv, hvt⟩ := Option.bind_eq_some_iff.1 hr
    have hrest : ∀ m ∈ marks as, ∀ k, m.kind? = some k → k.Listed := by
      intro m hm
      exact h m (by rw [marks_cons]; exact List.mem_append_right _ hm)
    -- An action without a mark opens and closes no node.
    cases ha : a.mark? with
    | none =>
      rw [marks_cons, ha, ← nodes_of_next? ha hv]
      exact ih hrest hvt
    | some m =>
      have hk := h m (by simp [ha])
      rw [marks_cons, ha, Option.toList_some, List.singleton_append, List.map_cons, openNodes?]
      cases a with
      | openNode node =>
        cases ha
        cases hv
        rw [tagOf?_text rfl]
        exact ih hrest hvt
      | closeNode node =>
        cases ha
        obtain rfl := next?_closeNode hv
        rw [tagOf?_text rfl]
        show (if some node = some node then openNodes? v.nodes _ else none) = some t.nodes
        rw [if_pos rfl]
        exact ih hrest hvt
      | consume token =>
        cases ha
        cases hv
        rw [show tagOf? (Mark.leaf token.kind).text.toList = none from (hk _ rfl).tagOf?_terminal]
        exact ih hrest hvt
      | _ => cases ha

end Nesting

/-! ## Both listings -/

/-- The tokens that actions at the front of a script take are at the front of the tokens, and each
of them has its line. -/
lemma listed_of_taken {source : String} {done : List Action}
    (h : done <+: (ofTokens (tokensOf source) nowhere).actions) :
    taken done <+: tokensOf source ∧ ∀ t ∈ taken done, t.kind.Listed := by
  have ht : taken done <+: taken (ofTokens (tokensOf source) nowhere).actions := h.filterMap _
  obtain ⟨rest, hr, -⟩ := meetOnto_eq_of_head? (tokensOf source) nowhere Goal.stack_wholeClass
  have hp : taken done <+: tokensOf source := ht.trans ⟨rest, hr.symm⟩
  refine ⟨hp, ?_⟩
  intro t hm
  obtain ⟨e, he⟩ := exists_element_of_mem_taken (tokensOf source) nowhere Goal.stack_wholeClass t
    (ht.subset hm)
  exact ⟨e, he, newline_not_mem_of_tokensOf source t (hp.subset hm) e he⟩

/-- The text of recorded marks has, but for the indentation, the lines of the marks. -/
lemma unindented_recorded {ms : List Mark} (h : ∀ m ∈ ms, ∀ k, m.kind? = some k → k.Listed) :
    unindented (Tree.empty.recordAll ms).text = ms.map fun m => m.text.toList := by
  have hl : (Tree.empty.recordAll ms).bareLines = ms.map Mark.text :=
    Tree.bareLines_recordAll Tree.empty h
  rw [Tree.unindented_text, hl, List.map_map]
  · rfl
  · rw [hl]
    intro _ hs
    obtain ⟨m, hm, rfl⟩ := List.mem_map.1 hs
    exact bracketed_text (h m hm)

/-- A script that is followed to its end takes all tokens in front of the end of the input. -/
lemma taken_eq_takeWhile {tokens : List Token} {last : Span}
    (h : (ofTokens tokens last).failure = none)
    (hp : taken (ofTokens tokens last).actions <+: tokens) :
    taken (ofTokens tokens last).actions = tokens.takeWhile (·.kind ≠ .eof) := by
  obtain ⟨c, hc, hs⟩ := exists_derives_of_ofTokens h
  have hk : (taken (ofTokens tokens last).actions).map Token.kind =
      (tokens.takeWhile (·.kind ≠ .eof)).map Token.kind := by
    rw [← map_kind_taken_bare, hs, c.taken_script, hc, beforeEof, List.takeWhile_map]
    rfl
  -- The kinds agree, so both are equally long, and both are at the front of the same tokens.
  have hlength := congrArg List.length hk
  rw [List.length_map, List.length_map] at hlength
  have hw := List.prefix_of_prefix_length_le hp (List.takeWhile_prefix (·.kind ≠ .eof))
    (Nat.le_of_eq hlength)
  exact hw.eq_of_length hlength

/-- Dropping the tokens before the end of the input leaves that end. -/
lemma currentKind_dropWhile (tokens : List Token) :
    currentKind (tokens.dropWhile (·.kind ≠ .eof)) = .eof := by
  induction tokens with
  | nil => rfl
  | cons t ts ih =>
    by_cases ht : t.kind = .eof
    · simp [ht, currentKind]
    · simpa [List.dropWhile_cons, ht] using ih

/-- The text of a tree, without the tags of nodes, is the listing of the tokens that the engine has
taken, and wherever it stops each closing tag is that of the innermost open node. -/
theorem terminals_of_recorded (options : Options) (source : String) :
    ∃ text consumed,
      (compileRecorded options source).engine.takeTree.1 = some text ∧
      tokensOf source = consumed ++ (compileRecorded options source).engine.tokens ∧
      tokenListing consumed =
        .ok ("<tokens>\n" ++
          String.join ((terminalLines text).map fun line => String.ofList line ++ "\n") ++
          "</tokens>\n") ∧
      (∀ name, (compileRecorded options source).result = .ok name →
        consumed = (tokensOf source).takeWhile (·.kind ≠ .eof) ∧
          tokenListing (tokensOf source) = tokenListing consumed) ∧
      ∀ n, (openNodes? [] ((unindented text).take n)).isSome := by
  obtain ⟨done, hdone, htree, htokens, hall⟩ := exists_recorded options source
  obtain ⟨hp, hlisted⟩ := listed_of_taken hdone
  have hm : ∀ m ∈ marks done, ∀ k, m.kind? = some k → k.Listed := by
    intro m hm k hk
    have hmem : k ∈ (taken done).map Token.kind := by
      rw [map_kind_taken]
      exact List.mem_filterMap.2 ⟨m, hm, hk⟩
    obtain ⟨t, ht, rfl⟩ := List.mem_map.1 hmem
    exact hlisted t ht
  have hu := unindented_recorded hm
  have hsplit : tokensOf source =
      taken done ++ (compileRecorded options source).engine.tokens := by
    rw [htokens]
    exact List.prefix_iff_eq_append.1 hp |>.symm
  have hlisting : tokenListing (taken done ++ []) = _ := tokenListing_eq hlisted rfl
  rw [List.append_nil] at hlisting
  refine ⟨(Tree.empty.recordAll (marks done)).text, taken done, ?_, hsplit, ?_, ?_, ?_⟩
  · rw [Engine.takeTree, htree]
    rfl
  · rw [hlisting, terminalLines, hu, filter_texts hm, ← map_kind_taken]
    simp [Function.comp_def]
  · intro name hname
    obtain ⟨rfl, hfailure⟩ := hall name hname
    have hw := taken_eq_takeWhile hfailure hp
    refine ⟨hw, ?_⟩
    have hall := tokenListing_eq hlisted (currentKind_dropWhile (tokensOf source))
    rw [hw, List.takeWhile_append_dropWhile, ← hw] at hall
    rw [hall, hlisting]
  · intro n
    -- The script is nested properly, and so are the actions at its front and the lines they write.
    obtain ⟨t, ht⟩ := exists_run?_ofTokens (tokensOf source) nowhere .closed
    obtain ⟨later, hl⟩ := hdone
    rw [← hl] at ht
    obtain ⟨v, hv, -⟩ := Nesting.run?_append_eq_some ht
    have ho := Nesting.openNodes?_marks hm hv
    rw [← hu, ← List.take_append_drop n (unindented _), openNodes?_append] at ho
    obtain ⟨nodes, hn, -⟩ := Option.bind_eq_some_iff.1 ho
    exact Option.isSome_iff_exists.2 ⟨nodes, hn⟩

end Jack
