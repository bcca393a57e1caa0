import Jack.Error
import Jack.Proofs.Symbol.Declared
import Mathlib.Data.List.Nodup
import Mathlib.Data.Set.Function
import Mathlib.Order.Interval.Set.Defs

/-!
# Symbol tables and their history

The history of a table is the list of the declarations that were accepted, with the numbers they
were given; starting a subroutine drops its arguments and locals. A table finds the entries of its
history and nothing else, and the entries of each kind have the numbers from zero on in their order.
One operation keeps this, and so does every sequence of operations on an empty table.
-/

namespace Jack

open Grammar

/-- A declaration that was accepted. -/
structure Entry where
  name : String
  symbol : Symbol
  deriving DecidableEq, Repr

namespace Entry

/-- The entries of a kind. -/
def ofKind (kind : SymbolKind) (es : List Entry) : List Entry := es.filter (·.symbol.kind = kind)

/-- The entries of the class, or those of the subroutine. -/
def inScope (classLevel : Bool) (es : List Entry) : List Entry :=
  es.filter (·.symbol.kind.isClassLevel = classLevel)

/-- The names of entries. -/
def names (es : List Entry) : List String := es.map name

/-- The first entry with a name. -/
def find? (es : List Entry) (name : String) : Option Entry := es.find? (·.name = name)

/-- The entry that a name means: one of the subroutine, or else one of the class. -/
def meaning? (es : List Entry) (name : String) : Option Entry :=
  find? (inScope false es) name <|> find? (inScope true es) name

/-- The entries of a kind are those whose symbol is of the kind. -/
lemma mem_ofKind {kind : SymbolKind} {es : List Entry} {e : Entry} :
    e ∈ ofKind kind es ↔ e ∈ es ∧ e.symbol.kind = kind := by
  simp [ofKind]

/-- The entries of a scope are those whose kind belongs to it. -/
lemma mem_inScope {classLevel : Bool} {es : List Entry} {e : Entry} :
    e ∈ inScope classLevel es ↔ e ∈ es ∧ e.symbol.kind.isClassLevel = classLevel := by
  simp [inScope]

/-- The entries of a kind come in the order of the parts. -/
@[simp] lemma ofKind_append (kind : SymbolKind) (es fs : List Entry) :
    ofKind kind (es ++ fs) = ofKind kind es ++ ofKind kind fs :=
  List.filter_append ..

/-- The entries of a scope come in the order of the parts. -/
@[simp] lemma inScope_append (classLevel : Bool) (es fs : List Entry) :
    inScope classLevel (es ++ fs) = inScope classLevel es ++ inScope classLevel fs :=
  List.filter_append ..

/-- All entries of a kind are in its scope. -/
lemma ofKind_inScope (kind : SymbolKind) (es : List Entry) :
    ofKind kind (inScope kind.isClassLevel es) = ofKind kind es := by
  rw [ofKind, inScope, List.filter_filter]
  apply List.filter_congr
  intro e _
  by_cases he : e.symbol.kind = kind
  · simp [he]
  · simp [he]

/-- Without the entries of the subroutine there are those of the class. -/
lemma inScope_inScope_true (classLevel : Bool) (es : List Entry) :
    inScope classLevel (inScope true es) = if classLevel then inScope true es else [] := by
  cases classLevel with
  | true => simp [inScope, List.filter_filter]
  | false => simp [inScope, List.filter_filter]

/-- Where names differ, an entry is found by its name. -/
lemma find?_eq_some_iff {es : List Entry} (h : (names es).Nodup) {name : String} {e : Entry} :
    find? es name = some e ↔ e ∈ es ∧ e.name = name := by
  constructor
  · intro hf
    exact ⟨List.mem_of_find?_eq_some hf, by simpa using List.find?_some hf⟩
  · rintro ⟨he, rfl⟩
    cases hf : find? es e.name with
    | none =>
      have hne := List.find?_eq_none.1 hf e he
      simp at hne
    | some f =>
      have hn : f.name = e.name := by simpa using List.find?_some hf
      rw [List.inj_on_of_nodup_map h (List.mem_of_find?_eq_some hf) he hn]

end Entry

namespace Scope

/-- A scope has the entries of a list and no others. They are of the two kinds that it counts. -/
structure Lists (s : Scope) (classLevel : Bool) (es : List Entry) : Prop where
  find : ∀ name symbol, s.symbols[name]? = some symbol ↔ ⟨name, symbol⟩ ∈ es
  distinct : (Entry.names es).Nodup
  level : ∀ e ∈ es, e.symbol.kind.isClassLevel = classLevel
  /-- The variables of a kind are numbered from zero in the order of their declarations. -/
  indices : ∀ kind, kind.isClassLevel = classLevel →
    (Entry.ofKind kind es).map (·.symbol.index.toNat) = List.range (s.count kind).toNat

/-- A new scope has no entry. -/
lemma lists_empty {classLevel : Bool} : Lists {} classLevel [] where
  find := by simp
  distinct := List.nodup_nil
  level := nofun
  indices := by
    intro kind _
    cases kind <;> rfl

variable {s : Scope} {classLevel : Bool} {es : List Entry}

/-- The names of the entries are those that the scope finds. -/
lemma Lists.mem_names_iff (h : s.Lists classLevel es) (name : String) :
    name ∈ Entry.names es ↔ ∃ symbol, s.symbols[name]? = some symbol := by
  constructor
  · intro hn
    obtain ⟨e, he, rfl⟩ := List.mem_map.1 hn
    exact ⟨e.symbol, (h.find e.name e.symbol).2 he⟩
  · rintro ⟨symbol, hs⟩
    exact List.mem_map_of_mem ((h.find name symbol).1 hs)

/-- The scope finds the symbol of the entry with a name. -/
lemma Lists.getElem?_eq (h : s.Lists classLevel es) (name : String) :
    s.symbols[name]? = (Entry.find? es name).map Entry.symbol := by
  apply Option.ext
  intro symbol
  rw [h.find, Option.map_eq_some_iff]
  constructor
  · intro he
    exact ⟨⟨name, symbol⟩, (Entry.find?_eq_some_iff h.distinct).2 ⟨he, rfl⟩, rfl⟩
  · rintro ⟨e, he, rfl⟩
    obtain ⟨hmem, rfl⟩ := (Entry.find?_eq_some_iff h.distinct).1 he
    exact hmem

/-- The counter of a kind is the number of its entries. -/
lemma Lists.length_ofKind (h : s.Lists classLevel es) {kind : SymbolKind}
    (hk : kind.isClassLevel = classLevel) :
    (Entry.ofKind kind es).length = (s.count kind).toNat := by
  have hl := congrArg List.length (h.indices kind hk)
  rwa [List.length_map, List.length_range] at hl

/-- One more entry has the next number of its kind. -/
lemma Lists.extended (h : s.Lists classLevel es) {name : String} (type : String)
    {kind : SymbolKind} (hk : kind.isClassLevel = classLevel) (hn : s.symbols[name]? = none)
    {next : UInt16} (hnext : next? (s.count kind) = some next) :
    (s.extended ⟨name, type, kind⟩ next).Lists classLevel
      (es ++ [⟨name, type, kind, s.count kind⟩]) where
  find := by
    intro x symbol
    rw [Scope.extended, Std.TreeMap.getElem?_insert, List.mem_append, List.mem_singleton]
    by_cases hx : name = x
    · subst hx
      have hno : ⟨name, symbol⟩ ∉ es := by
        rw [← h.find, hn]
        simp
      simp [hno, eq_comm]
    · have hne : x ≠ name := fun e => hx e.symm
      simp [hx, hne, h.find]
  distinct := by
    have hno : name ∉ Entry.names es := by
      rw [h.mem_names_iff, hn]
      simp
    rw [Entry.names, List.map_append, List.nodup_append]
    refine ⟨h.distinct, List.nodup_singleton _, ?_⟩
    rintro x hx y hy rfl
    obtain rfl := List.mem_singleton.1 hy
    exact hno hx
  level := by
    rw [List.forall_mem_append, List.forall_mem_singleton]
    exact ⟨h.level, hk⟩
  indices := by
    intro other ho
    rw [count_extended next (hk.trans ho.symm), Entry.ofKind_append, List.map_append,
      h.indices other ho]
    -- The new entry is the next of its own kind; the other counter of the scope stays.
    by_cases he : kind = other
    · subst he
      rw [if_pos rfl, ← next?_eq_some_iff.1 hnext, List.range_succ]
      simp [Entry.ofKind]
    · simp [Entry.ofKind, he]

/-- The names of the variables of a kind. -/
def namesOf (s : Scope) (kind : SymbolKind) : Set String :=
  {name | ∃ symbol, s.symbols[name]? = some symbol ∧ symbol.kind = kind}

/-- The number of a variable among those of its kind. -/
def numberOf (s : Scope) (name : String) : Nat := (s.symbols[name]?).elim 0 (·.index.toNat)

/-- The number of a name is that of its symbol. -/
lemma numberOf_eq {name : String} {symbol : Symbol} (h : s.symbols[name]? = some symbol) :
    s.numberOf name = symbol.index.toNat := by
  rw [numberOf, h]
  rfl

/-- The names of a kind are numbered one to one from zero on. -/
lemma Lists.bijOn (h : s.Lists classLevel es) {kind : SymbolKind}
    (hlevel : kind.isClassLevel = classLevel) :
    Set.BijOn s.numberOf (s.namesOf kind) (Set.Iio (s.count kind).toNat) := by
  have hmem : ∀ name ∈ s.namesOf kind, ∃ symbol, ⟨name, symbol⟩ ∈ Entry.ofKind kind es ∧
      s.numberOf name = symbol.index.toNat := by
    rintro name ⟨symbol, hs, hk⟩
    exact ⟨symbol, Entry.mem_ofKind.2 ⟨(h.find name symbol).1 hs, hk⟩, numberOf_eq hs⟩
  have hnodup : ((Entry.ofKind kind es).map (·.symbol.index.toNat)).Nodup := by
    rw [h.indices kind hlevel]
    exact List.nodup_range
  refine ⟨?_, ?_, ?_⟩
  · intro name hn
    obtain ⟨symbol, he, hi⟩ := hmem name hn
    rw [Set.mem_Iio, hi, ← List.mem_range, ← h.indices kind hlevel]
    exact List.mem_map_of_mem (f := fun e : Entry => e.symbol.index.toNat) he
  · intro x hx y hy hxy
    obtain ⟨symbol, he, hi⟩ := hmem x hx
    obtain ⟨symbol', he', hi'⟩ := hmem y hy
    have hee := List.inj_on_of_nodup_map hnodup he he' (hi.symm.trans (hxy.trans hi'))
    exact congrArg Entry.name hee
  · intro i hi
    rw [Set.mem_Iio, ← List.mem_range, ← h.indices kind hlevel] at hi
    obtain ⟨⟨name, symbol⟩, he, rfl⟩ := List.mem_map.1 hi
    obtain ⟨he, hk⟩ := Entry.mem_ofKind.1 he
    have hs := (h.find name symbol).2 he
    exact ⟨name, ⟨symbol, hs, hk⟩, numberOf_eq hs⟩

/-- Two names of a scope do not have the same word. -/
lemma Lists.name_eq (h : s.Lists classLevel es) {x y : String} {a b : Symbol}
    (hx : s.symbols[x]? = some a) (hy : s.symbols[y]? = some b)
    (hs : a.kind.segment = b.kind.segment) (hi : a.index = b.index) : x = y := by
  have hk : a.kind = b.kind := by
    revert hs
    cases a.kind <;> cases b.kind <;> decide
  have hlevel : a.kind.isClassLevel = classLevel := h.level _ ((h.find x a).1 hx)
  apply (h.bijOn hlevel).injOn ⟨a, hx, rfl⟩ ⟨b, hy, hk.symm⟩
  rw [numberOf_eq hx, numberOf_eq hy, hi]

end Scope

namespace SymbolTable

variable (t : SymbolTable)

/-- The count of a kind stands in its scope. -/
lemma count_eq (kind : SymbolKind) :
    t.count kind = (t.scope kind.isClassLevel).count kind := by
  rw [count, scope]
  split <;> rfl

/-- A name is looked up in the scope of the subroutine, and then in that of the class. -/
lemma lookup?_eq (name : String) :
    t.lookup? name = ((t.scope false).symbols[name]? <|> (t.scope true).symbols[name]?) := rfl

/-- The history after one more operation on a table. -/
def record (t : SymbolTable) (es : List Entry) : Operation → List Entry
  | .declare name type kind =>
    match (t.declare name type kind).1 with
    | .ok index => es ++ [⟨name, type, kind, index⟩]
    | .error _ => es
  | .startSubroutine => Entry.inScope true es

/-- A table after operations. -/
def applyAll (t : SymbolTable) (ops : List Operation) : SymbolTable := ops.foldl apply t

/-- The history after more operations on a table. -/
def recordAll (t : SymbolTable) (es : List Entry) : List Operation → List Entry
  | [] => es
  | op :: ops => recordAll (t.apply op) (t.record es op) ops

/-- The table that operations make of the empty one. -/
def after (ops : List Operation) : SymbolTable := empty.applyAll ops

/-- The declarations that are accepted by the empty table and still in force after operations. -/
def history (ops : List Operation) : List Entry := empty.recordAll [] ops

/-- A table has the entries of its history, each in the scope of its kind. -/
def Keeps (t : SymbolTable) (es : List Entry) : Prop :=
  ∀ classLevel, (t.scope classLevel).Lists classLevel (Entry.inScope classLevel es)

variable {t} {es : List Entry}

/-- An empty table keeps an empty history. -/
lemma keeps_empty : Keeps empty [] := by
  intro classLevel
  cases classLevel
  · exact Scope.lists_empty
  · exact Scope.lists_empty

/-- What a declaration gives, and what it makes of the table and its history. -/
lemma Keeps.declare_cases (h : t.Keeps es) (name type : String) (kind : SymbolKind) :
    (∃ earlier, name ∈ Entry.names (Entry.inScope kind.isClassLevel es) ∧
      t.declare name type kind = (.error (.duplicate name earlier), t)) ∨
    (name ∉ Entry.names (Entry.inScope kind.isClassLevel es) ∧
      (Entry.ofKind kind es).length = 65535 ∧
      t.declare name type kind = (.error (.tooMany name kind), t)) ∨
    (name ∉ Entry.names (Entry.inScope kind.isClassLevel es) ∧
      (Entry.ofKind kind es).length ≠ 65535 ∧
      ∃ index after, t.declare name type kind = (.ok index, after) ∧
        index.toNat = (Entry.ofKind kind es).length ∧
        after.Keeps (es ++ [⟨name, type, kind, index⟩])) := by
  have hs := h kind.isClassLevel
  have hlen := hs.length_ofKind rfl
  rw [Entry.ofKind_inScope] at hlen
  rw [hs.mem_names_iff, t.declare_eq, hlen]
  obtain ⟨earlier, hf, hd⟩ | ⟨hf, hfull, hd⟩ | ⟨hf, next, hnext, hd⟩ :=
    (t.scope kind.isClassLevel).declare_cases name type kind
  · rw [hd, t.withScope_scope]
    exact .inl ⟨earlier, ⟨earlier, hf⟩, rfl⟩
  · rw [hd, t.withScope_scope]
    exact .inr (.inl ⟨by simp [hf], Scope.next?_eq_none_iff.1 hfull, rfl⟩)
  · have hfree : ((t.scope kind.isClassLevel).count kind).toNat ≠ 65535 := by
      intro hfull
      rw [Scope.next?_eq_none_iff.2 hfull] at hnext
      cases hnext
    rw [hd]
    refine .inr (.inr ⟨by simp [hf], hfree, _, _, rfl, rfl, ?_⟩)
    -- The scope of the kind has one entry more, and the other scope is the same as before.
    intro other
    rw [scope_withScope, Entry.inScope_append]
    by_cases ho : kind.isClassLevel = other
    · subst ho
      rw [if_pos rfl]
      simpa [Entry.inScope] using hs.extended type rfl hf hnext
    · rw [if_neg ho]
      simpa [Entry.inScope, ho] using h other

/-- One operation keeps the history. -/
lemma Keeps.apply (h : t.Keeps es) (op : Operation) : (t.apply op).Keeps (t.record es op) := by
  cases op with
  | declare name type kind =>
    rw [SymbolTable.apply, record]
    obtain ⟨earlier, -, hd⟩ | ⟨-, -, hd⟩ | ⟨-, -, index, after, hd, -, hk⟩ :=
      h.declare_cases name type kind
    · rw [hd]
      exact h
    · rw [hd]
      exact h
    · rw [hd]
      exact hk
  | startSubroutine =>
    intro classLevel
    rw [record, Entry.inScope_inScope_true]
    cases classLevel
    · exact Scope.lists_empty
    · exact h true

/-- Operations one after another keep the history up. -/
lemma Keeps.applyAll (h : t.Keeps es) (ops : List Operation) :
    (t.applyAll ops).Keeps (t.recordAll es ops) := by
  induction ops generalizing t es with
  | nil => exact h
  | cons op ops ih => exact ih (h.apply op)

/-- After any operations the table keeps their history. -/
lemma keeps_history (ops : List Operation) : (after ops).Keeps (history ops) :=
  keeps_empty.applyAll ops

/-- Whatever is done to a table, the class has statics and fields only and the subroutine arguments
and locals only. The names of each kind are numbered one to one from zero up to their count, so that
no two names of a scope have the same word of a segment. -/
theorem numbering_bijective (ops : List Operation) :
    (∀ (name : String) (symbol : Symbol), (after ops).classScope.symbols[name]? = some symbol →
      symbol.kind = .static ∨ symbol.kind = .field) ∧
    (∀ (name : String) (symbol : Symbol), (after ops).subroutineScope.symbols[name]? = some symbol →
      symbol.kind = .argument ∨ symbol.kind = .localVar) ∧
    (∀ kind, Set.BijOn ((after ops).scope kind.isClassLevel).numberOf
      (((after ops).scope kind.isClassLevel).namesOf kind)
      (Set.Iio ((after ops).count kind).toNat)) ∧
    (∀ kind, ((after ops).count kind).toNat ≤ 65535) ∧
    ∀ (classLevel : Bool) (x y : String) (a b : Symbol), x ≠ y →
      ((after ops).scope classLevel).symbols[x]? = some a →
      ((after ops).scope classLevel).symbols[y]? = some b →
      (a.kind.segment, a.index) ≠ (b.kind.segment, b.index) := by
  have hk := keeps_history ops
  have hlevel : ∀ (classLevel : Bool) (name : String) (symbol : Symbol),
      ((after ops).scope classLevel).symbols[name]? = some symbol →
        symbol.kind.isClassLevel = classLevel := by
    intro classLevel name symbol hs
    exact (Entry.mem_inScope.1 (((hk classLevel).find name symbol).1 hs)).2
  refine ⟨?_, ?_, ?_, ?_, ?_⟩
  · intro name symbol hs
    have hl := hlevel true name symbol hs
    revert hl
    cases symbol.kind <;> decide
  · intro name symbol hs
    have hl := hlevel false name symbol hs
    revert hl
    cases symbol.kind <;> decide
  · intro kind
    rw [count_eq]
    exact (hk kind.isClassLevel).bijOn rfl
  · intro kind
    exact Nat.lt_succ_iff.1 ((after ops).count kind).toNat_lt
  · intro classLevel x y a b hxy hx hy hab
    obtain ⟨hs, hi⟩ := Prod.mk.inj hab
    exact hxy ((hk classLevel).name_eq hx hy hs hi)

/-- The table answers from the history of what has been done to it. A name means its one entry for
the subroutine, or else its one entry for the class. A declaration is refused as a duplicate where
the scope of its kind has the name, as one too many where the history has 65535 entries of its kind,
and else it gets the number of these entries. A refused declaration changes no answer. -/
theorem table_refines_history (ops : List Operation) :
    (∀ classLevel, (Entry.names (Entry.inScope classLevel (history ops))).Nodup) ∧
    (∀ name,
      (after ops).lookup? name = (Entry.meaning? (history ops) name).map (·.symbol) ∧
      (after ops).kindOf? name = (Entry.meaning? (history ops) name).map (·.symbol.kind) ∧
      (after ops).typeOf? name = (Entry.meaning? (history ops) name).map (·.symbol.type) ∧
      (after ops).indexOf? name = (Entry.meaning? (history ops) name).map (·.symbol.index)) ∧
    ∀ name type kind,
      ((∃ cause, ((after ops).declare name type kind).1 = .error cause ∧
          (Cause.declaration cause).kind = .duplicateSymbol) ↔
        name ∈ Entry.names (Entry.inScope kind.isClassLevel (history ops))) ∧
      ((∃ cause, ((after ops).declare name type kind).1 = .error cause ∧
          (Cause.declaration cause).kind = .unexpectedToken) ↔
        name ∉ Entry.names (Entry.inScope kind.isClassLevel (history ops)) ∧
          (Entry.ofKind kind (history ops)).length = 65535) ∧
      (∀ index, ((after ops).declare name type kind).1 = .ok index ↔
        name ∉ Entry.names (Entry.inScope kind.isClassLevel (history ops)) ∧
          (Entry.ofKind kind (history ops)).length ≠ 65535 ∧
          index.toNat = (Entry.ofKind kind (history ops)).length) ∧
      (∀ cause, ((after ops).declare name type kind).1 = .error cause →
        (∀ x, ((after ops).apply (.declare name type kind)).lookup? x = (after ops).lookup? x) ∧
        ∀ k, ((after ops).apply (.declare name type kind)).count k = (after ops).count k) := by
  have hk := keeps_history ops
  have hlookup : ∀ name,
      (after ops).lookup? name = (Entry.meaning? (history ops) name).map (·.symbol) := by
    intro name
    rw [lookup?_eq, (hk false).getElem?_eq, (hk true).getElem?_eq, Entry.meaning?]
    cases Entry.find? (Entry.inScope false (history ops)) name <;> rfl
  refine ⟨fun classLevel => (hk classLevel).distinct, fun name => ?_, fun name type kind => ?_⟩
  · refine ⟨hlookup name, ?_, ?_, ?_⟩
    · rw [kindOf?, hlookup, Option.map_map]
      rfl
    · rw [typeOf?, hlookup, Option.map_map]
      rfl
    · rw [indexOf?, hlookup, Option.map_map]
      rfl
  · obtain ⟨earlier, hn, hd⟩ | ⟨hn, hl, hd⟩ | ⟨hn, hl, index, t, hd, hi, -⟩ :=
      hk.declare_cases name type kind
    · rw [apply, hd]
      simp [hn, Cause.kind]
    · rw [apply, hd]
      simp [hn, hl, Cause.kind]
    · rw [← hi] at hl ⊢
      rw [hd]
      simp [hn, hl, UInt16.toNat_inj, eq_comm]

-- The local hides the field, the argument is refused, and the fields outlive the subroutine.
example :
    let ops : List Operation := [.declare "x" "int" .field, .declare "x" "boolean" .localVar,
      .declare "x" "char" .argument, .declare "y" "int" .field]
    (after ops).typeOf? "x" = some "boolean" ∧
      history (ops ++ [.startSubroutine]) = [⟨"x", "int", .field, 0⟩, ⟨"y", "int", .field, 1⟩] := by
  decide +kernel

end SymbolTable

end Jack
