import Jack.Proofs.Compile.Terminals
import Jack.Proofs.Token.Positions

/-!
# Listings are read back

The value in an element holds no bracket once it is escaped, so a line is cut at its brackets into
the tag and the value. Lines are cut at line feeds, which no value holds. A reader that does so and
undoes the four escapes finds the kinds of the tokens again, with their values, whatever a string
constant holds.
-/

namespace Jack

open Text

/-! ## A reader of listings -/

/-- A text with its four escapes undone. -/
def unescaped : List Char → List Char
  | '&' :: 'l' :: 't' :: ';' :: cs => '<' :: unescaped cs
  | '&' :: 'g' :: 't' :: ';' :: cs => '>' :: unescaped cs
  | '&' :: 'a' :: 'm' :: 'p' :: ';' :: cs => '&' :: unescaped cs
  | '&' :: 'q' :: 'u' :: 'o' :: 't' :: ';' :: cs => '"' :: unescaped cs
  | c :: cs => c :: unescaped cs
  | [] => []

/-- Does a tag start or end with a character? -/
def isBracket (c : Char) : Bool := c == '<' || c == '>'

/-- The element on a line: its value stands between blanks, and these between two tags. -/
def Element.ofLine? (line : List Char) : Option Element :=
  match pieces isBracket line with
  | [[], tag, ' ' :: value, '/' :: closing, []] =>
    if closing = tag then some ⟨String.ofList tag, String.ofList (unescaped value.dropLast)⟩
    else none
  | _ => none

/-- The kind of token that an element stands for. -/
def TokenKind.ofElement? (e : Element) : Option TokenKind :=
  match e.tag with
  | "keyword" => (Keyword.ofText? e.value).map .keyword
  | "symbol" => e.value.toList.head?.map .symbol
  | "integerConstant" => some (.integer (decimalValue e.value.toList))
  | "stringConstant" => some (.string e.value)
  | "identifier" => some (.identifier e.value)
  | _ => none

/-- The kinds of the tokens in a listing. -/
def kindsListed? (listing : String) : Option (List TokenKind) :=
  match lines listing.toList with
  | [] => none
  | first :: rest =>
    if first = "<tokens>".toList ∧ rest.getLast? = some "</tokens>".toList then
      rest.dropLast.mapM fun line => (Element.ofLine? line).bind TokenKind.ofElement?
    else none

/-! ## Values -/

/-- A character that starts no entity stands for itself. -/
lemma unescaped_cons {c : Char} (h : c ≠ '&') (cs : List Char) :
    unescaped (c :: cs) = c :: unescaped cs := by
  rw [unescaped]
  all_goals
    intros
    exact absurd ‹_› h

/-- A character is one of the four that have entities, or is written as it is. -/
lemma markupChar_cases (c : Char) :
    (c = '<' ∨ c = '>' ∨ c = '&' ∨ c = '"') ∨
      (c ≠ '&' ∧ isBracket c = false ∧ (markupChar c).toList = [c]) := by
  by_cases h : c = '<' ∨ c = '>' ∨ c = '&' ∨ c = '"'
  · exact .inl h
  · simp only [not_or] at h
    obtain ⟨hless, hgreater, hand, hquote⟩ := h
    refine .inr ⟨hand, ?_, ?_⟩
    · simp [isBracket, hless, hgreater]
    · simp [markupChar, hless, hgreater, hand, hquote, Char.toString]

/-- The escape of a character is undone, whatever comes after it. -/
lemma unescaped_markupChar_append (c : Char) (cs : List Char) :
    unescaped ((markupChar c).toList ++ cs) = c :: unescaped cs := by
  obtain (rfl | rfl | rfl | rfl) | ⟨hand, -, hself⟩ := markupChar_cases c
  · rfl
  · rfl
  · rfl
  · rfl
  · rw [hself, List.singleton_append, unescaped_cons hand]

/-- A text is written character by character. -/
lemma toList_markupText (value : String) :
    (markupText value).toList = value.toList.flatMap fun c => (markupChar c).toList := by
  rw [markupText, foldl_append_eq_join, String.toList_append, String.toList_join, List.flatMap_map]
  rfl

/-- A text that is written is read back. -/
lemma unescaped_markupText (value : String) :
    unescaped (markupText value).toList = value.toList := by
  rw [toList_markupText]
  induction value.toList with
  | nil => rfl
  | cons c cs ih => rw [List.flatMap_cons, unescaped_markupChar_append, ih]

/-- Characters that have been checked are no brackets. -/
lemma not_bracket_of_all {cs : List Char} (h : cs.all (!isBracket ·) = true) :
    ∀ c ∈ cs, isBracket c = false := by
  simpa using h

/-- No character is written with a bracket. -/
lemma not_bracket_of_mem_markupChar (c : Char) :
    ∀ d ∈ (markupChar c).toList, isBracket d = false := by
  obtain (rfl | rfl | rfl | rfl) | ⟨-, hbracket, hself⟩ := markupChar_cases c
  · exact not_bracket_of_all (by decide)
  · exact not_bracket_of_all (by decide)
  · exact not_bracket_of_all (by decide)
  · exact not_bracket_of_all (by decide)
  · rwa [hself, List.forall_mem_singleton]

/-- An escaped value holds no bracket. -/
lemma not_bracket_of_mem_markupText {value : String} :
    ∀ c ∈ (markupText value).toList, isBracket c = false := by
  intro d hd
  rw [toList_markupText] at hd
  obtain ⟨c, -, hc⟩ := List.mem_flatMap.1 hd
  exact not_bracket_of_mem_markupChar c d hc

/-! ## Lines -/

/-- An element is read from its line. -/
lemma Element.ofLine?_text {e : Element} (h : ∀ c ∈ e.tag.toList, isBracket c = false) :
    ofLine? e.text.toList = some e := by
  let value := (markupText e.value).toList
  have hvalue : ∀ c ∈ ' ' :: (value ++ [' ']), isBracket c = false := by
    intro c hc
    simp only [List.mem_cons, List.mem_append, List.not_mem_nil, or_false] at hc
    obtain rfl | hc | rfl := hc
    · rfl
    · exact not_bracket_of_mem_markupText c hc
    · rfl
  have hclosing : ∀ c ∈ '/' :: e.tag.toList, isBracket c = false :=
    List.forall_mem_cons.2 ⟨rfl, h⟩
  have htext : e.text.toList =
      '<' :: (e.tag.toList ++ '>' :: ((' ' :: (value ++ [' '])) ++
        '<' :: (('/' :: e.tag.toList) ++ '>' :: []))) := by
    simp [Element.text, value]
  -- The value is escaped and holds no bracket, so the brackets cut the line at its tags.
  have hpieces : pieces isBracket e.text.toList =
      [[], e.tag.toList, ' ' :: (value ++ [' ']), '/' :: e.tag.toList, []] := by
    rw [htext, pieces_cons_of_pos rfl, pieces_append_cons rfl, pieces_eq_singleton h,
      pieces_append_cons rfl, pieces_eq_singleton hvalue, pieces_append_cons rfl,
      pieces_eq_singleton hclosing]
    rfl
  rw [ofLine?, hpieces]
  simp [value, unescaped_markupText]

namespace TokenKind

variable {k : TokenKind} {e : Element}

/-- Tags have no brackets in them. -/
lemma not_bracket_tag (h : k.element? = some e) : ∀ c ∈ e.tag.toList, isBracket c = false := by
  cases k <;> cases h
  all_goals
    apply not_bracket_of_all
    dsimp only
    decide

/-- The kind of a token is read back from its element. -/
lemma ofElement?_of_element (h : k.element? = some e) : ofElement? e = some k := by
  cases k with
  | keyword k =>
    cases h
    show (Keyword.ofText? k.text).map TokenKind.keyword = _
    rw [Keyword.ofText?_text, Option.map_some]
  | symbol c =>
    cases h
    show c.toString.toList.head?.map TokenKind.symbol = _
    rw [Char.toString, String.toList_singleton, List.head?_cons, Option.map_some]
  | integer n =>
    cases h
    show some (TokenKind.integer (decimalValue n.repr.toList)) = _
    rw [Vm.Instruction.decimalValue_repr]
  | string body =>
    cases h
    rfl
  | identifier name =>
    cases h
    rfl
  | eof => cases h
  | error cause => cases h

/-- A kind is read from the line of its token. -/
lemma ofElement?_ofLine?_terminal (h : k.Listed) :
    (Element.ofLine? (Grammar.terminal k).toList).bind ofElement? = some k := by
  obtain ⟨e, he, -⟩ := h
  rw [terminal_of_element he, Element.ofLine?_text (not_bracket_tag he)]
  exact ofElement?_of_element he

/-- The line of a token is cut from a text as it is. -/
lemma Listed.unbroken (h : k.Listed) :
    (∀ c ∈ (Grammar.terminal k).toList, c ≠ '\n') ∧
      (Grammar.terminal k).toList.getLast? ≠ some '\r' := by
  obtain ⟨inner, ht, hn, -⟩ := h.exists_terminal
  rw [ht]
  constructor
  · rintro _ hc rfl
    simp [hn] at hc
  · rw [← List.cons_append, List.getLast?_concat]
    decide

end TokenKind

/-! ## Listings -/

/-- The kinds are read from the lines of their tokens. -/
lemma mapM_terminals {ts : List Token} (h : ∀ t ∈ ts, t.kind.Listed) :
    (ts.map fun t => (Grammar.terminal t.kind).toList).mapM
      (fun line => (Element.ofLine? line).bind TokenKind.ofElement?) =
        some (ts.map Token.kind) := by
  induction ts with
  | nil => rfl
  | cons t ts ih =>
    obtain ⟨ht, hts⟩ := List.forall_mem_cons.1 h
    rw [List.map_cons, List.mapM_cons, TokenKind.ofElement?_ofLine?_terminal ht, ih hts]
    rfl

/-- A listing is read back. -/
lemma kindsListed?_listing {ts : List Token} (h : ∀ t ∈ ts, t.kind.Listed) :
    kindsListed? ("<tokens>\n" ++ String.join (ts.map fun t => Grammar.terminal t.kind ++ "\n") ++
      "</tokens>\n") = some (ts.map Token.kind) := by
  let texts := ts.map fun t => (Grammar.terminal t.kind).toList
  let first := "<tokens>".toList
  let last := "</tokens>".toList
  have htext : ("<tokens>\n" ++ String.join (ts.map fun t => Grammar.terminal t.kind ++ "\n") ++
      "</tokens>\n").toList = (first :: (texts ++ [last])).flatMap (· ++ ['\n']) := by
    simp [first, last, texts, String.toList_join, List.flatMap_map]
  have hunbroken : ∀ line ∈ first :: (texts ++ [last]),
      (∀ c ∈ line, c ≠ '\n') ∧ line.getLast? ≠ some '\r' := by
    rw [List.forall_mem_cons, List.forall_mem_append, List.forall_mem_singleton]
    refine ⟨by simp [first], ?_, by simp [last]⟩
    intro line hline
    obtain ⟨t, ht, rfl⟩ := List.mem_map.1 hline
    exact (h t ht).unbroken
  rw [kindsListed?, htext, lines_terminated hunbroken]
  simp only [List.getLast?_concat, List.dropLast_concat]
  rw [if_pos ⟨rfl, rfl⟩]
  exact mapM_terminals h

/-- Where a listing is made, every token in front of the end of the input has its element. -/
lemma exists_element_of_elementsOnto {ts rest : List Token} (hne : ∀ t ∈ ts, t.kind ≠ .eof)
    {out listing : String} (h : elementsOnto out (ts ++ rest) = .ok listing) :
    ∀ t ∈ ts, ∃ e, t.kind.element? = some e := by
  induction ts generalizing out with
  | nil => nofun
  | cons t ts ih =>
    obtain ⟨ht, hts⟩ := List.forall_mem_cons.1 hne
    obtain ⟨e, he⟩ : ∃ e, t.kind.element? = some e := by
      cases hk : t.kind with
      | eof => exact absurd hk ht
      | error cause =>
        rw [List.cons_append, elementsOnto, hk] at h
        cases h
      | _ => exact ⟨_, rfl⟩
    rw [List.cons_append, elementsOnto_cons he] at h
    exact List.forall_mem_cons.2 ⟨⟨e, he⟩, ih hts h⟩

/-- The kinds of a source, the end of the input last, are read back from its listing. -/
lemma kindsListed?_tokensOfBytes {source : List UInt8} {listing : String}
    (h : tokenListing (tokensOfBytes source) = .ok listing) :
    ∃ kinds, (tokensOfBytes source).map Token.kind = kinds ++ [.eof] ∧
      kindsListed? listing = some kinds := by
  obtain ⟨ts, eof, hts, hk, -, hne⟩ := (positioned_tokensOfBytes source).exists_eof
  have hlisted : ∀ t ∈ ts, t.kind.Listed := by
    rw [hts, tokenListing] at h
    cases hel : elementsOnto "<tokens>\n" (ts ++ [eof]) with
    | error err =>
      rw [hel] at h
      cases h
    | ok text =>
      intro t ht
      obtain ⟨e, he⟩ := exists_element_of_elementsOnto (fun t ht => (hne t ht).1) hel t ht
      have hmem : t ∈ tokensOfBytes source := by
        rw [hts]
        exact List.mem_append_left _ ht
      exact ⟨e, he, newline_not_mem_of_tokensOfBytes source t hmem e he⟩
  have htext : tokenListing (ts ++ [eof]) = _ := tokenListing_eq hlisted hk
  rw [← hts, h] at htext
  obtain rfl := Except.ok.inj htext
  refine ⟨ts.map Token.kind, ?_, kindsListed?_listing hlisted⟩
  rw [hts, List.map_append, List.map_singleton, hk]

/-- The listing of a source can be read back to the kinds of its tokens, so sources with the same
listing have the same kinds of tokens with the same values. -/
theorem kinds_of_listing :
    (∀ source listing, tokenListing (tokensOfBytes source) = .ok listing →
      ∃ kinds, (tokensOfBytes source).map Token.kind = kinds ++ [.eof] ∧
        kindsListed? listing = some kinds) ∧
    ∀ a b listing, tokenListing (tokensOfBytes a) = .ok listing →
      tokenListing (tokensOfBytes b) = .ok listing →
      (tokensOfBytes a).map Token.kind = (tokensOfBytes b).map Token.kind := by
  refine ⟨fun source listing => kindsListed?_tokensOfBytes, fun a b listing ha hb => ?_⟩
  obtain ⟨kinds, hkinds, hread⟩ := kindsListed?_tokensOfBytes ha
  obtain ⟨kinds', hkinds', hread'⟩ := kindsListed?_tokensOfBytes hb
  rw [hread] at hread'
  obtain rfl := Option.some.inj hread'
  rw [hkinds, hkinds']

/-- A string constant that holds markup of its own, in two sources that are laid out differently. -/
theorem kinds_of_listing_entity :
    let a := Utf8.bytes "s\" &lt;</b> \""
    let b := Utf8.bytes "/* \" */ s\n\" &lt;</b> \" // s"
    ∃ listing, tokenListing (tokensOfBytes a) = .ok listing ∧
      tokenListing (tokensOfBytes b) = .ok listing ∧
      kindsListed? listing = some [.identifier "s", .string " &lt;</b> "] ∧
      (tokensOfBytes a).map Token.kind = (tokensOfBytes b).map Token.kind := by
  intro a b
  let listing := "<tokens>\n<identifier> s </identifier>\n" ++
    "<stringConstant>  &amp;lt;&lt;/b&gt;  </stringConstant>\n</tokens>\n"
  have ha : tokenListing (tokensOfBytes a) = .ok listing := by decide +kernel
  have hb : tokenListing (tokensOfBytes b) = .ok listing := by decide +kernel
  refine ⟨listing, ha, hb, ?_, kinds_of_listing.2 a b listing ha hb⟩
  obtain ⟨kinds, hkinds, hread⟩ := kinds_of_listing.1 a listing ha
  have hall : (tokensOfBytes a).map Token.kind =
      [.identifier "s", .string " &lt;</b> "] ++ [.eof] := by
    decide +kernel
  rw [hread, List.append_cancel_right (hkinds.symm.trans hall)]

end Jack
