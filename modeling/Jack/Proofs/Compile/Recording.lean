import Jack.Compile
import Jack.Proofs.Compile.Frame
import Jack.Proofs.Grammar.Marks

/-!
# The recorded tree

An engine records the marks of the actions it carries out, and recording the marks of a tree writes
its lines. So the tree of a class that compiles is written as it is, and where a compilation stops
the lines are those of the actions carried out so far.
-/

namespace Jack

open Grammar Script Jack.Action

/-! ## Tokens with elements -/

/-- Only tokens that have an element are taken. -/
lemma Goal.exists_element_of_take {g : Goal} {k : TokenKind} {here : Span} {actions : List Action}
    {new : List Goal} (h : g.predict k here = .take actions new) : ∃ e, k.element? = some e := by
  cases k with
  | eof => exact absurd h (g.predict_eof_ne_take _ _ _)
  | error cause =>
    cases g <;>
      simp [Goal.predict, Move.symbol, Move.keyword, Move.identifier, Move.type,
        TokenKind.typeName?, Move.classVarDecs, Move.subroutineDecs, Move.endOfInput,
        Move.resultType, Move.parameters, Move.afterComma, Move.varDecs, Move.statements,
        Move.letRest, Move.elsePart, Move.returnValue, Move.operators, Move.term, Move.afterName,
        Move.callRest, Move.closeArguments, Move.arguments, Move.argument,
        Move.moreArguments] at h
  | _ => exact ⟨_, rfl⟩

/-- Every token that a script takes has an element. -/
lemma Script.exists_element_of_mem_taken (tokens : List Token) (last : Span) {goals : List Goal}
    (hs : Goal.Stack goals) :
    ∀ t ∈ taken (meetOnto tokens last goals #[]).actions, ∃ e, t.kind.element? = some e := by
  induction tokens, last, goals using meetOnto_induction with
  | nil tokens last => simp
  | skip tokens last goal goals actions new h ih =>
    rw [taken_meetOnto_skip hs h]
    exact ih (hs.of_skip h).1
  | take token rest last goal goals actions new h ih =>
    rw [taken_meetOnto_take hs h, List.forall_mem_cons]
    exact ⟨Goal.exists_element_of_take h, ih (hs.of_take h).1⟩
  | reject tokens last goal goals actions expected h =>
    rw [taken_meetOnto_reject hs h]
    exact List.forall_mem_nil _

/-- Every token of a class has an element. -/
lemma Grammar.ClassDec.exists_element_of_mem_yield (c : ClassDec) {k : TokenKind}
    (hk : k ∈ c.yield) : ∃ e, k.element? = some e := by
  have hs : (ofKinds (c.yield ++ []) Goal.wholeClass).actions = c.script := by
    rw [c.ofKinds_yield rfl]
  rw [← c.taken_script, ← hs] at hk
  obtain ⟨t, ht, rfl⟩ := List.mem_map.1 hk
  exact exists_element_of_mem_taken _ _ Goal.stack_wholeClass t ht

/-! ## Lines of a recorded tree -/

/-- Appending texts one by one appends them joined. -/
lemma foldl_append_eq_join {α : Type} (f : α → String) (xs : List α) (out : String) :
    xs.foldl (fun out x => out ++ f x) out = out ++ String.join (xs.map f) := by
  induction xs generalizing out with
  | nil => simp
  | cons x xs ih => rw [List.foldl_cons, ih, List.map_cons, String.join_cons, String.append_assoc]

/-- The characters that are written in another way are those of the table. -/
lemma markupChar_eq (c : Char) : markupChar c = (entities.lookup c).getD (String.singleton c) := by
  by_cases hc : c ∈ ['<', '>', '&', '"']
  · simp only [List.mem_cons, List.not_mem_nil, or_false] at hc
    obtain rfl | rfl | rfl | rfl := hc <;> rfl
  · simp only [List.mem_cons, List.not_mem_nil, or_false, not_or] at hc
    have hn : entities.lookup c = none := List.lookup_eq_none_iff.2 (by simp [entities, hc])
    rw [hn]
    simp [markupChar, hc, Char.toString]

/-- A text is written with its special characters escaped. -/
lemma markupText_eq_escaped (text : String) : markupText text = escaped text := by
  rw [markupText, foldl_append_eq_join, escaped, ← funext markupChar_eq]
  simp

/-- A token with an element is written as the element is. -/
lemma terminal_of_element {k : TokenKind} {e : Element} (h : k.element? = some e) :
    terminal k = e.text := by
  cases k <;> cases h <;> simp [terminal, tagged, Element.text, markupText_eq_escaped]

namespace Tree

/-- The tree with a mark recorded. -/
def record (t : Tree) : Mark → Tree
  | .opened node => t.openNode node.tag
  | .closed node => t.closeNode node.tag
  | .leaf kind => t.addToken kind.bare

/-- The tree with marks recorded one after another. -/
def recordAll (t : Tree) (ms : List Mark) : Tree := ms.foldl record t

variable (t : Tree)

/-- Recording no marks changes nothing. -/
@[simp] lemma recordAll_nil : t.recordAll [] = t := rfl

/-- The first mark is recorded before the others. -/
@[simp] lemma recordAll_cons (m : Mark) (ms : List Mark) :
    t.recordAll (m :: ms) = (t.record m).recordAll ms := rfl

/-- The first marks are recorded before the second ones. -/
@[simp] lemma recordAll_append (ms ns : List Mark) :
    t.recordAll (ms ++ ns) = (t.recordAll ms).recordAll ns := List.foldl_append

/-- The lines so far with their indentation. -/
def shown : List String := t.lines.toList.map fun (depth, line) => indent depth ++ line.text

/-- One level deeper is two spaces more. -/
lemma indent_succ (n : Nat) : indent (n + 1) = "  " ++ indent n := by
  rw [indent, Nat.mul_add, Nat.add_comm, ← List.replicate_append_replicate, String.ofList_append]
  rfl

/-- An indentation is put behind the text so far. -/
lemma indentOnto_eq (out : String) (n : Nat) : indentOnto out n = out ++ indent n := by
  induction n generalizing out with
  | zero => simp [indentOnto, indent]
  | succ n ih => rw [indentOnto, ih, indent_succ, String.append_assoc]

/-- The text of a tree has its lines, each with a line feed. -/
lemma text_eq : t.text = String.join (t.shown.map (· ++ "\n")) := by
  have hline : ∀ (out : String) (l : Nat × TreeLine),
      indentOnto out l.1 ++ l.2.text ++ "\n" = out ++ (indent l.1 ++ l.2.text ++ "\n") := by
    intro out l
    rw [indentOnto_eq, String.append_assoc, String.append_assoc, String.append_assoc]
  rw [text, ← Array.foldl_toList]
  simp only [hline]
  rw [foldl_append_eq_join, shown, List.map_map]
  simp [Function.comp_def]

section
variable (tag : String) {k : TokenKind} {e : Element}

/-- Opening a node shows its tag at the depth so far. -/
@[simp] lemma shown_openNode :
    (t.openNode tag).shown = t.shown ++ [indent t.depth ++ ("<" ++ tag ++ ">")] := by
  simp [openNode, shown, TreeLine.text]

/-- Closing a node shows its tag one level up. -/
@[simp] lemma shown_closeNode :
    (t.closeNode tag).shown = t.shown ++ [indent (t.depth - 1) ++ ("</" ++ tag ++ ">")] := by
  simp [closeNode, shown, TreeLine.text]

/-- A token shows its element at the depth so far. -/
lemma shown_addToken (h : k.element? = some e) :
    (t.addToken k.bare).shown = t.shown ++ [indent t.depth ++ e.text] := by
  simp [addToken, TokenKind.bare, h, shown, TreeLine.text]

/-- A token leaves the depth. -/
lemma depth_addToken : (t.addToken k.bare).depth = t.depth := by
  rw [addToken]
  split <;> rfl

end

mutual

/-- Recording the marks of a tree writes its lines. -/
lemma recordAll_marks (p : ParseTree) (t : Tree)
    (h : ∀ k ∈ p.leaves, ∃ e, k.element? = some e) :
    (t.recordAll p.marks).depth = t.depth ∧
      (t.recordAll p.marks).shown = t.shown ++ p.lines t.depth := by
  cases p with
  | leaf token =>
    obtain ⟨e, he⟩ := h token List.mem_cons_self
    refine ⟨t.depth_addToken, ?_⟩
    rw [ParseTree.lines, terminal_of_element he]
    exact t.shown_addToken he
  | node label children =>
    -- The children are written one level deeper, and the closing tag comes back to the level.
    obtain ⟨hd, hs⟩ := recordAll_forestMarks children (t.openNode label.tag) h
    rw [ParseTree.marks, recordAll_cons, recordAll_append]
    constructor
    · show ((t.openNode label.tag).recordAll _).depth - 1 = t.depth
      rw [hd]
      rfl
    · show (((t.openNode label.tag).recordAll _).closeNode label.tag).shown = _
      rw [shown_closeNode, hs, hd, shown_openNode]
      simp [ParseTree.lines, openNode]

/-- Recording the marks of trees adds their lines and comes back to the depth. -/
lemma recordAll_forestMarks (ps : List ParseTree) (t : Tree)
    (h : ∀ k ∈ ParseTree.forestLeaves ps, ∃ e, k.element? = some e) :
    (t.recordAll (ParseTree.forestMarks ps)).depth = t.depth ∧
      (t.recordAll (ParseTree.forestMarks ps)).shown =
        t.shown ++ ParseTree.forestLines t.depth ps := by
  cases ps with
  | nil => simp [ParseTree.forestMarks, ParseTree.forestLines]
  | cons p ps =>
    rw [ParseTree.forestLeaves] at h
    obtain ⟨hp, hps⟩ := List.forall_mem_append.1 h
    obtain ⟨hd, hs⟩ := recordAll_marks p t hp
    obtain ⟨hd', hs'⟩ := recordAll_forestMarks ps (t.recordAll p.marks) hps
    rw [ParseTree.forestMarks, recordAll_append, hd', hs', hs, hd]
    exact ⟨rfl, by rw [ParseTree.forestLines, List.append_assoc]⟩

end

end Tree

/-! ## What an engine has recorded -/

namespace Engine

variable (e : Engine)

/-- An action records its mark, also where it fails. -/
lemma tree_perform (a : Action) :
    (e.perform a).engine.tree = e.tree.map (·.recordAll (marks [a])) := by
  have hsame : e.tree = e.tree.map (·.recordAll []) := by simp
  by_cases ha : a.Inert
  · have hm : marks [a] = [] := by
      cases a with
      | consume _ | openNode _ | closeNode _ => exact ha.elim
      | _ => rfl
    rw [(e.keeps_perform ha).tree, hm]
    exact hsame
  cases a with
  | consume _ | openNode _ | closeNode _ => rfl
  | openLabels | branchElse | branchEnd | loopTop | loopEnd | emit _ => exact hsame
  | _ => exact absurd trivial ha

/-- An action uses up the token that it takes, if any. -/
lemma tokens_perform (a : Action) :
    (e.perform a).engine.tokens = e.tokens.drop (taken [a]).length := by
  cases ha : a.taken? with
  | some token =>
    obtain rfl : a = .consume token := by cases a <;> cases ha; rfl
    simp [perform, consume, ha]
  | none =>
    rw [(e.stays_perform ha).tokens]
    simp [ha]

/-- Some of the actions are carried out, and all of them where none fails. -/
lemma exists_done (as : List Action) :
    ∃ done, done <+: as ∧
      (e.performAll as).engine.tree = e.tree.map (·.recordAll (marks done)) ∧
      (e.performAll as).engine.tokens = e.tokens.drop (taken done).length ∧
      ((e.performAll as).error = none → done = as) := by
  induction as generalizing e with
  | nil => exact ⟨[], List.nil_prefix, by simp [performAll], rfl, fun _ => rfl⟩
  | cons a as ih =>
    have ht := e.tree_perform a
    have hk := e.tokens_perform a
    rw [performAll]
    revert ht hk
    obtain ⟨f, none | stop⟩ := e.perform a <;> intro ht hk
    · -- `a` is done, and what `f` gets done comes behind it.
      obtain ⟨done, hd, htree, htokens, hall⟩ := ih f
      have hm : marks (a :: done) = marks [a] ++ marks done := marks_append [a] done
      have hc : taken (a :: done) = taken [a] ++ taken done := taken_append [a] done
      refine ⟨a :: done, List.cons_prefix_cons.2 ⟨rfl, hd⟩, ?_, ?_, ?_⟩
      · rw [htree, ht, hm, Option.map_map]
        simp [Function.comp_def]
      · rw [htokens, hk, hc, List.drop_drop, List.length_append]
      · intro hn
        rw [hall hn]
    · -- What `a` has to record is recorded before it fails.
      exact ⟨[a], List.prefix_append [a] as, ht, hk, fun hn => absurd hn (by simp)⟩

end Engine

/-- The actions of tokens that are followed to their end are those of a derivation. -/
lemma Script.exists_derives_of_ofTokens {tokens : List Token} {last : Span}
    (h : (ofTokens tokens last).failure = none) :
    ∃ c : ClassDec,
      c.Derives tokens ∧ (ofTokens tokens last).actions.map Action.bare = c.script := by
  have hb := bare_ofTokens tokens last
  have hf : (ofKinds (tokens.map Token.kind) Goal.wholeClass).failure = none := by
    rw [← hb]
    exact h
  obtain ⟨c, rest, hk, he⟩ := exists_yield_of_ofKinds hf
  refine ⟨c, ?_, ?_⟩
  · rw [ClassDec.Derives, hk, c.beforeEof_yield he]
  · rw [hk, c.ofKinds_yield he] at hb
    exact congrArg Script.actions hb

/-- A compilation has recorded some of its actions, and all of them where it works out. -/
lemma exists_recorded (options : Options) (source : String) :
    ∃ done, done <+: (ofTokens (tokensOf source) nowhere).actions ∧
      (compileRecorded options source).engine.tree = some (Tree.empty.recordAll (marks done)) ∧
      (compileRecorded options source).engine.tokens =
        (tokensOf source).drop (taken done).length ∧
      ∀ name, (compileRecorded options source).result = .ok name →
        done = (ofTokens (tokensOf source) nowhere).actions ∧
          (ofTokens (tokensOf source) nowhere).failure = none := by
  let e := (Engine.start options (tokensOf source)).recordTree
  obtain ⟨done, hd, htree, htokens, hall⟩ :=
    Engine.exists_done { e with openLabels := [] } (ofTokens e.tokens e.last).actions
  rw [← e.compileClass_snd] at htree htokens
  refine ⟨done, hd, htree, htokens, ?_⟩
  intro name hname
  obtain ⟨herror, hfailure⟩ := e.compileClass_eq_ok_iff.1 ⟨name, hname⟩
  exact ⟨hall herror, hfailure⟩

/-- A parse tree that is put out is the text recorded by a compilation that succeeds. -/
lemma compileToTree_eq_ok {options : Options} {source text : String}
    (h : compileToTree options source = .ok text) :
    (∃ name, (compileRecorded options source).result = .ok name) ∧
      text = ((compileRecorded options source).engine.tree.map Tree.text).getD "" := by
  simp only [compileToTree] at h
  cases hr : (compileRecorded options source).result with
  | error err =>
    rw [hr] at h
    cases h
  | ok name =>
    rw [hr] at h
    cases h
    exact ⟨⟨name, rfl⟩, rfl⟩

/-- The tree of a source that compiles is the tree of its one derivation. -/
theorem tree_of_compiled (options : Options) (source text : String)
    (h : compileToTree options source = .ok text) :
    ∃ c : ClassDec,
      c.yield = ((tokensOf source).map Token.kind).takeWhile (· ≠ .eof) ∧
      (∀ d : ClassDec,
        d.yield = ((tokensOf source).map Token.kind).takeWhile (· ≠ .eof) → d = c) ∧
      c.tree.leaves = c.yield ∧ text = c.tree.text := by
  obtain ⟨⟨name, hname⟩, rfl⟩ := compileToTree_eq_ok h
  obtain ⟨done, -, htree, -, hall⟩ := exists_recorded options source
  obtain ⟨rfl, hfailure⟩ := hall name hname
  obtain ⟨c, hc, hs⟩ := exists_derives_of_ofTokens hfailure
  refine ⟨c, hc, ?_, c.leaves_tree, ?_⟩
  · intro d hd
    exact ClassDec.yield_injective (hd.trans hc.symm)
  · have hm : marks (ofTokens (tokensOf source) nowhere).actions = c.tree.marks := by
      rw [← marks_map_bare, hs, c.marks_script]
    have he : ∀ k ∈ c.tree.leaves, ∃ e, k.element? = some e := by
      rw [c.leaves_tree]
      exact fun k hk => c.exists_element_of_mem_yield hk
    obtain ⟨-, hshown⟩ := Tree.recordAll_marks c.tree Tree.empty he
    rw [htree, hm]
    show (Tree.empty.recordAll c.tree.marks).text = c.tree.text
    rw [Tree.text_eq, hshown]
    rfl

/-- The class in `signSource`. -/
def sign : ClassDec where
  name := "Sign"
  vars := []
  subroutines :=
    [{ kind := .function
       result := some (.named "String")
       name := "of"
       params := [⟨.int, "n"⟩]
       locals := []
       body :=
        .cons (.ifThen (.mk (.var "n") (.cons .less (.integer 0) .nil))
          (.cons (.giveBack (some (.mk (.string "< 0") .nil))) .nil))
        (.cons (.giveBack (some (.mk (.call (.member "Sign" "zero") .nil) .nil))) .nil) }]

/-- A class with a string whose text is escaped in the tree. -/
def signSource : String :=
  "class Sign \x7b function String of(int n)
    \x7b if (n < 0) \x7b return \"< 0\"; \x7d return Sign.zero(); \x7d \x7d"

/-- That class is put out as its derivation is written. -/
theorem tree_of_compiled_sign : compileToTree {} signSource = .ok sign.tree.text := by
  have hok : (compileToTree {} signSource).isOk = true := by decide +kernel
  obtain ⟨text, ht⟩ : ∃ text, compileToTree {} signSource = .ok text := by
    cases h : compileToTree {} signSource with
    | ok text => exact ⟨text, rfl⟩
    | error err =>
      rw [h] at hok
      cases hok
  obtain ⟨c, -, hu, -, rfl⟩ := tree_of_compiled {} signSource text ht
  rw [ht, hu sign (by decide +kernel)]

end Jack
