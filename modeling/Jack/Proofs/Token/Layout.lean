import Jack.Proofs.Token.Unambiguous
import Jack.Proofs.Vm.Text
import Mathlib.Algebra.Group.Nat.Defs

/-!
# Layout

Tokens are spelled out one after another, each with white space behind it, and comments and more
white space stand where they like. Whatever the layout, the tokens are read back as they are.
-/

namespace Jack

open Text.Utf8 (bytes toNat_ofUInt8)

/-! ### Layouts -/

/-- White space, closed block comments and line comments with their line feeds, in any order. -/
inductive Filler : List UInt8 → Prop where
  | nil :
    Filler []
  | space {b g} :
    IsSpace b →
    Filler g →
    Filler (b :: g)
  | line {body g} :
    0x0A ∉ body →
    Filler g →
    Filler (bytes "//" ++ body ++ [0x0A] ++ g)
  | block {body g} :
    ¬ bytes "*/" <:+: body →
    Filler g →
    Filler (bytes "/*" ++ body ++ bytes "*/" ++ g)

/-- A filler that starts with white space. -/
inductive Separator : List UInt8 → Prop where
  | mk {b g} : IsSpace b → Filler g → Separator (b :: g)

/-- The spellings of a kind of token. An integer has any number of leading zeros. -/
inductive Spelling : TokenKind → List UInt8 → Prop where
  | keyword (k : Keyword) :
    Spelling (.keyword k) (bytes k.text)
  | symbol {c} :
    c ∈ symbolText.toList →
    Spelling (.symbol c) (bytes c.toString)
  | integer {n} (zeros : Nat) :
    n < 2 ^ 64 →
    Spelling (.integer n) (List.replicate zeros 0x30 ++ bytes n.repr)
  | string {body} :
    (∀ c ∈ body.toList, c ≠ '"' ∧ c ≠ '\n' ∧ c ≠ '\r') →
    Spelling (.string body) (bytes ("\"" ++ body ++ "\""))
  | identifier {name b bs} :
    bytes name = b :: bs → IsLetter b → (∀ d ∈ bs, IsLetter d ∨ IsDigit d) →
    name ∉ reserved →
    Spelling (.identifier name) (bytes name)

/-- Spellings of kinds, each with a separator behind it. -/
inductive Layout : List TokenKind → List UInt8 → Prop where
  | nil :
    Layout [] []
  | cons {k ks w s text} :
    Spelling k w →
    Separator s →
    Layout ks text →
    Layout (k :: ks) (w ++ s ++ text)

/-! ### Bytes of texts -/

/-- Texts one behind the other have their bytes one behind the other. -/
lemma bytes_append (a b : String) : bytes (a ++ b) = bytes a ++ bytes b := by
  simp [bytes, Text.Utf8.encode]

/-- The bytes of a character encode it. -/
lemma bytes_toString (c : Char) : bytes c.toString = String.utf8EncodeChar c := by
  simp [bytes, Text.Utf8.encode, Char.toString]

/-- A digit is one byte. -/
lemma utf8EncodeChar_digit {c : Char} (h : c.isDigit = true) :
    ∃ b, String.utf8EncodeChar c = [b] ∧ Char.ofUInt8 b = c ∧ IsDigit b := by
  have hc : 48 ≤ c.toNat ∧ c.toNat ≤ 57 := by
    simpa [Char.isDigit, UInt32.le_iff_toNat_le] using h
  obtain ⟨b, -, hb⟩ := Text.Utf8.exists_byte c.toNat (by omega)
  obtain rfl : Char.ofUInt8 b = c := Char.toNat_inj.1 ((toNat_ofUInt8 b).trans hb)
  refine ⟨b, Text.Utf8.utf8EncodeChar_ofUInt8 (by omega), rfl, ?_⟩
  simp only [IsDigit, UInt8.le_iff_toNat_le, UInt8.reduceToNat]
  omega

/-- Digits are encoded as digits. -/
lemma encode_digits {cs : List Char} (h : ∀ c ∈ cs, c.isDigit = true) :
    asciiChars (Text.Utf8.encode cs) = cs ∧ ∀ b ∈ Text.Utf8.encode cs, IsDigit b := by
  induction cs with
  | nil => exact ⟨rfl, nofun⟩
  | cons c cs ih =>
    obtain ⟨hc, hcs⟩ := List.forall_mem_cons.1 h
    obtain ⟨b, he, hb, hd⟩ := utf8EncodeChar_digit hc
    obtain ⟨ha, hds⟩ := ih hcs
    have hcons : Text.Utf8.encode (c :: cs) = b :: Text.Utf8.encode cs := by
      rw [Text.Utf8.encode, List.flatMap_cons, he]
      rfl
    rw [hcons]
    exact ⟨List.cons_eq_cons.2 ⟨hb, ha⟩, List.forall_mem_cons.2 ⟨hd, hds⟩⟩

/-- Zeros in front of a number do not count. -/
lemma digitsValue_zeros (zeros : Nat) (bs : List UInt8) :
    digitsValue (List.replicate zeros 0x30 ++ bs) = digitsValue bs := by
  induction zeros with
  | zero => rfl
  | succ n ih =>
    rw [List.replicate_succ, List.cons_append]
    exact ih

/-! ### Layouts are read back -/

section
variable {g rest s w : List UInt8} {k : TokenKind}

/-- A star behind a comment does not close it. -/
lemma not_infix_concat {bs : List UInt8} (h : ¬ [0x2A, 0x2F] <:+: bs) :
    ¬ [0x2A, 0x2F] <:+: bs ++ [0x2A] := by
  rw [List.infix_concat_iff]
  rintro (⟨t, ht⟩ | hi)
  · have hl := congrArg List.getLast? ht
    simp at hl
  · exact h hi

/-- A filler is skipped. -/
lemma Filler.trivia (h : Filler g) : Trivia g rest := by
  induction h with
  | nil => exact .nil
  | space hb _ ih => exact .space hb ih
  | @line body g hb _ ih =>
    have he : bytes "//" ++ body ++ [0x0A] ++ g = 0x2F :: 0x2F :: (body ++ 0x0A :: g) := by
      rw [List.append_assoc, List.append_assoc]
      rfl
    rw [he]
    refine .line ?_ ?_ (.space (by simp [IsSpace]) ih)
    · rintro b hm rfl
      exact hb hm
    · rintro b ⟨⟩
      rfl
  | @block body g hb _ ih =>
    have he : bytes "/*" ++ body ++ bytes "*/" ++ g =
        0x2F :: 0x2A :: (body ++ [0x2A, 0x2F] ++ g) := by
      rw [List.append_assoc, List.append_assoc, ← List.append_assoc body]
      rfl
    rw [he]
    exact .block (not_infix_concat hb) ih

/-- A separator is a filler. -/
lemma Separator.filler (h : Separator s) : Filler s := by
  cases h with
  | mk hb hg => exact .space hb hg

/-- A separator starts with a blank, where anything follows. -/
lemma Separator.space_of_mem_head? (h : Separator s) {b : UInt8} (hb : b ∈ (s ++ rest).head?) :
    IsSpace b := by
  cases h with
  | mk hs _ =>
    cases hb
    exact hs

/-- No word goes on in a separator. -/
lemma Separator.not_word (h : Separator s) :
    ∀ d ∈ (s ++ rest).head?, ¬ (IsLetter d ∨ IsDigit d) := by
  intro d hd hw
  have hsolid : Window.Solid [d] := solid_of_word hw
  exact hsolid.1 d rfl (h.space_of_mem_head? hd)

/-- A keyword is a letter and then letters or digits. -/
lemma Keyword.exists_bytes (k : Keyword) : ∃ b bs, bytes k.text = b :: bs ∧ IsLetter b ∧
    ∀ d ∈ bs, IsLetter d ∨ IsDigit d := by
  have hk : (bytes k.text).head?.any isWordStart = true ∧
      (bytes k.text).all isWordByte = true := by
    cases k <;> decide +kernel
  cases hb : bytes k.text with
  | nil => simp [hb] at hk
  | cons b bs =>
    simp only [hb, List.head?_cons, Option.any_some, List.all_cons, Bool.and_eq_true,
      List.all_eq_true, isWordStart_iff, isWordByte_iff] at hk
    exact ⟨b, bs, rfl, hk.1, hk.2.2⟩

/-- Decimal digits with zeros in front are a run of digits with that value. -/
lemma digits_repr (zeros n : Nat) (hn : ∀ d ∈ rest.head?, ¬ IsDigit d) :
    Digits (List.replicate zeros 0x30 ++ bytes n.repr) rest ∧
      digitsValue (List.replicate zeros 0x30 ++ bytes n.repr) = n := by
  have hdigits : ∀ c ∈ n.repr.toList, c.isDigit = true :=
    fun c => Vm.Instruction.isDigit_of_mem_repr
  obtain ⟨ha, hd⟩ := encode_digits hdigits
  refine ⟨⟨?_, List.forall_mem_append.2 ⟨?_, hd⟩, hn⟩, ?_⟩
  · intro he
    have hnil : Text.Utf8.encode n.repr.toList = [] := (List.append_eq_nil_iff.1 he).2
    rw [hnil] at ha
    exact (Vm.Instruction.legible_repr n).nonempty ha.symm
  · intro b hb
    rw [List.eq_of_mem_replicate hb]
    exact isDigitByte_iff.1 rfl
  · rw [digitsValue_zeros, ← decimalValue_asciiChars, bytes, ha, Vm.Instruction.decimalValue_repr]

/-- A text that may be quoted has bytes that may. -/
lemma quotable_bytes {body : String}
    (hq : ∀ c ∈ body.toList, c ≠ '"' ∧ c ≠ '\n' ∧ c ≠ '\r') : Quotable (bytes body) := by
  intro b hb
  have hm : b.toNat ≤ 0x7F → Char.ofUInt8 b ∈ body.toList := Text.Utf8.mem_of_mem_bytes hb
  refine ⟨?_, ?_, ?_⟩ <;> rintro rfl
  · exact (hq _ (hm (by decide))).1 (by decide)
  · exact (hq _ (hm (by decide))).2.1 (by decide)
  · exact (hq _ (hm (by decide))).2.2 (by decide)

/-- A spelling with a separator behind it is scanned as its token. -/
lemma Spelling.spells (h : Spelling k w) (hs : Separator s) : Spells w (s ++ rest) k := by
  cases h with
  | keyword k => exact .keyword ⟨k.exists_bytes, hs.not_word⟩ rfl k.text_mem_reserved
  | symbol hc =>
    rw [bytes_toString]
    refine .symbol hc fun _ b hb => ?_
    have hsp := hs.space_of_mem_head? hb
    constructor <;> rintro rfl <;> simp [IsSpace] at hsp
  | @integer n zeros hn =>
    have hn' : ∀ d ∈ (s ++ rest).head?, ¬ IsDigit d := fun d hd h => hs.not_word d hd (.inr h)
    obtain ⟨hd, hv⟩ := digits_repr zeros n hn'
    have hsp := Spells.integer hd (by rwa [hv])
    rwa [hv] at hsp
  | @string body hq =>
    have he : bytes ("\"" ++ body ++ "\"") = 0x22 :: (bytes body ++ [0x22]) := by
      rw [bytes_append, bytes_append]
      rfl
    have hd := Text.Utf8.decoded_lossy (bytes body)
    rw [Text.Utf8.lossy_bytes] at hd
    rw [he]
    exact .string (quotable_bytes hq) hd
  | identifier hb hl hw hn => exact .identifier ⟨⟨_, _, hb, hl, hw⟩, hs.not_word⟩ rfl hn

end

/-- Nothing is spelled as the end of the input. -/
lemma Spelling.kind_ne_eof {k : TokenKind} {w : List UInt8} (h : Spelling k w) : k ≠ .eof := by
  cases h <;> exact TokenKind.noConfusion

/-- What is left to read is laid out, so its tokens are read one by one. -/
lemma Window.tokensOnto_of_layout {kinds : List TokenKind} {text front : List UInt8} {w : Window}
    (h : Layout kinds text) (hf : Filler front) (hr : w.rest = front ++ text)
    (out : Array Token) :
    (w.tokensOnto out).toList.map Token.kind =
      out.toList.map Token.kind ++ (kinds ++ [.eof]) := by
  induction h generalizing w front out with
  | nil =>
    have hk := scan_of_trivia hf.trivia (hr.trans front.append_nil)
    rw [tokensOnto, dif_pos hk]
    simp [hk]
  | @cons k ks v s text hv hs _ ih =>
    rw [List.append_assoc] at hr
    obtain ⟨hk, hrest, -⟩ := scan_of_spells hf.trivia (hv.spells hs) hr
    rw [tokensOnto, dif_neg (by rw [hk]; exact hv.kind_ne_eof), ih hs.filler hrest]
    simp [hk]

/-- Tokens that are laid out are read back, and then the end of the input. -/
theorem tokens_of_layout (kinds : List TokenKind) (front text : List UInt8) (hf : Filler front)
    (h : Layout kinds text) :
    (Lexer.ofSource ⟨front ++ text, .finished⟩).Yields (tokensOfBytes (front ++ text)) ∧
      (tokensOfBytes (front ++ text)).map Token.kind = kinds ++ [.eof] := by
  have hr : (Window.ofSource ⟨front ++ text, .finished⟩).rest = front ++ text :=
    Window.rest_ofSource _
  obtain ⟨ts, hts, hy, -⟩ := Window.tokensOnto_spec (.ofSource ⟨front ++ text, .finished⟩) #[]
  have hk := Window.tokensOnto_of_layout h hf hr #[]
  rw [hts] at hk
  rw [tokensOfBytes, ByteSource.tokens, hts]
  exact ⟨hy, hk⟩

/-- Comments right behind words and symbols, and a slash of its own, are told apart. -/
theorem tokens_of_layout_division :
    (tokensOfBytes (bytes "/* a **/let lets /*/*/ / \"é //\"\t//\n007\n")).map Token.kind =
      [.keyword .letKw, .identifier "lets", .symbol '/', .string "é //", .integer 7, .eof] := by
  have hspace : IsSpace 0x20 ∧ IsSpace 0x09 ∧ IsSpace 0x0A := by simp [IsSpace]
  have hfront : Filler (bytes "/*" ++ bytes " a *" ++ bytes "*/" ++ []) :=
    .block (by decide +kernel) .nil
  have hblock : Filler (bytes "/*" ++ bytes "/" ++ bytes "*/" ++ [0x20]) :=
    .block (by decide +kernel) (.space hspace.1 .nil)
  have hline : Filler (bytes "//" ++ [] ++ [0x0A] ++ []) := .line (by decide) .nil
  have hlets : Spelling (.identifier "lets") (bytes "lets") := by
    refine @Spelling.identifier _ 0x6C (bytes "ets") rfl (isWordStart_iff.1 rfl) ?_ (by decide)
    simp only [← isWordByte_iff]
    exact List.all_eq_true.1 (by decide +kernel)
  have hbody : "é //".toList.all (fun c => c ≠ '"' ∧ c ≠ '\n' ∧ c ≠ '\r') = true := by decide
  have hstring : Spelling (.string "é //") (bytes ("\"" ++ "é //" ++ "\"")) :=
    .string fun c hc => of_decide_eq_true (List.all_eq_true.1 hbody c hc)
  have hslash : Spelling (.symbol '/') (bytes '/'.toString) := .symbol (by decide)
  have h := Layout.nil
    |>.cons (.integer 2 (by decide : 7 < 2 ^ 64)) (.mk hspace.2.2 .nil)
    |>.cons hstring (.mk hspace.2.1 hline)
    |>.cons hslash (.mk hspace.1 .nil)
    |>.cons hlets (.mk hspace.1 hblock)
    |>.cons (.keyword .letKw) (.mk hspace.1 .nil)
  refine Eq.trans (congrArg (fun bs => (tokensOfBytes bs).map Token.kind) ?_)
    (tokens_of_layout _ _ _ hfront h).2
  decide +kernel

end Jack
