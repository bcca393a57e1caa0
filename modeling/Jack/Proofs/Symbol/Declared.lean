import Std.Data.TreeMap.Lemmas
import Jack.Proofs.Grammar.Rules
import Mathlib.Tactic.Lemma

/-!
# Symbol tables and declarations

A scope of the symbol table holds a list of declarations if it finds the names that the list has and
counts its variables. Declaring a variable adds it to the list, and works out exactly when the name
is new and a number is left for it.
-/

namespace Jack

open Grammar

/-- Variables do not live among the constants. -/
lemma SymbolKind.segment_ne_constant (kind : SymbolKind) : kind.segment ≠ .constant := by
  cases kind <;> simp [segment]

namespace Grammar.Variable

/-- An empty list has no variables of any kind. -/
@[simp] lemma count_nil (kind : SymbolKind) : count kind [] = 0 := rfl

/-- The variables of a kind are counted in both parts. -/
@[simp] lemma count_append (kind : SymbolKind) (vs ws : List Variable) :
    count kind (vs ++ ws) = count kind vs + count kind ws :=
  List.countP_append

/-- One variable counts for its own kind. -/
lemma count_singleton (kind : SymbolKind) (v : Variable) :
    count kind [v] = if v.kind = kind then 1 else 0 := by
  simp [count, List.countP_singleton]

/-- The names of the first part come first. -/
@[simp] lemma names_append (vs ws : List Variable) : names (vs ++ ws) = names vs ++ names ws :=
  List.map_append

/-- A name is looked for in the first part, and then in the second behind it. -/
lemma findAfter_append (before : List Variable) (x : String) (vs ws : List Variable) :
    findAfter before x (vs ++ ws) =
      (findAfter before x vs <|> findAfter (before ++ vs) x ws) := by
  induction vs generalizing before with
  | nil => simp [findAfter]
  | cons v vs ih =>
    by_cases h : v.name = x
    · simp [findAfter, h]
    · simp [findAfter, h, ih]

/-- The last declaration counts for its name where none before it does. -/
lemma find?_concat (vs : List Variable) (v : Variable) (x : String) :
    find? (vs ++ [v]) x = (find? vs x <|>
      if v.name = x then some ⟨v.type, v.kind, (count v.kind vs).toUInt16⟩ else none) := by
  simp [find?, findAfter_append, findAfter]

/-- A name is not found where no variable has it. -/
lemma findAfter_eq_none_iff (before vs : List Variable) (x : String) :
    findAfter before x vs = none ↔ x ∉ names vs := by
  induction vs generalizing before with
  | nil => simp [findAfter, names]
  | cons v vs ih =>
    by_cases h : v.name = x
    · simp [findAfter, names, h]
    · have hx : x ≠ v.name := fun e => h e.symm
      simp only [findAfter, h, if_false, ih]
      simp [names, hx]

/-- A name has no symbol where no variable has it. -/
lemma find?_eq_none_iff (vs : List Variable) (x : String) : find? vs x = none ↔ x ∉ names vs :=
  findAfter_eq_none_iff [] vs x

end Grammar.Variable

namespace Scope

variable {s : Scope} {classLevel : Bool} {vs : List Variable}

/-- A counter is the number behind the last one, as long as that has 16 bits. -/
lemma next?_eq_some_iff {n m : UInt16} : next? n = some m ↔ n.toNat + 1 = m.toNat := by
  have hlt := m.toNat_lt
  have hone : (1 : UInt16).toNat = 1 := rfl
  unfold next?
  rw [UInt16.size]
  split
  · next h =>
    rw [Option.some.injEq, ← UInt16.toNat_inj, UInt16.toNat_add, hone]
    omega
  · next h => exact ⟨nofun, fun e => by omega⟩

/-- Only behind the largest number there is no other one. -/
lemma next?_eq_none_iff {n : UInt16} : next? n = none ↔ n.toNat = maxWord := by
  have hlt := n.toNat_lt
  unfold next?
  rw [UInt16.size, maxWord]
  split
  · next h => exact ⟨nofun, fun e => by omega⟩
  · next h => exact ⟨fun _ => by omega, fun _ => rfl⟩

/-- The scope with one more variable and its counter at a number. -/
def extended (s : Scope) (v : Variable) (next : UInt16) : Scope :=
  ⟨s.symbols.insert v.name ⟨v.type, v.kind, s.count v.kind⟩, s.counts.set v.kind.slot next⟩

/-- A variable moves the counter of its kind, and leaves that of the other kind in its scope. -/
lemma count_extended {v : Variable} {kind : SymbolKind} (next : UInt16)
    (h : v.kind.isClassLevel = kind.isClassLevel) :
    (s.extended v next).count kind = if v.kind = kind then next else s.count kind := by
  unfold extended count
  simp only [Fin.getElem_fin, Vector.getElem_set, ← Fin.ext_iff, SymbolKind.slot_inj h]

/-- A declaration is refused because of an earlier one, or because all numbers are taken, and leaves
the scope as it was; else it gets the next number. -/
lemma declare_cases (s : Scope) (name type : String) (kind : SymbolKind) :
    (∃ earlier, s.symbols[name]? = some earlier ∧
      s.declare name type kind = (.error (.duplicate name earlier), s)) ∨
    (s.symbols[name]? = none ∧ next? (s.count kind) = none ∧
      s.declare name type kind = (.error (.tooMany name kind), s)) ∨
    (s.symbols[name]? = none ∧ ∃ next, next? (s.count kind) = some next ∧
      s.declare name type kind = (.ok (s.count kind), s.extended ⟨name, type, kind⟩ next)) := by
  rw [declare]
  cases hf : s.symbols[name]? with
  | some earlier => exact .inl ⟨earlier, rfl, rfl⟩
  | none =>
    cases hn : next? (s.count kind) with
    | none => exact .inr (.inl ⟨rfl, rfl, by simp only [hn]⟩)
    | some next => exact .inr (.inr ⟨rfl, next, rfl, by simp only [hn]; rfl⟩)

/-- A scope has the declared variables and no others, and counts those of its two kinds. -/
structure Holds (s : Scope) (classLevel : Bool) (vs : List Variable) : Prop where
  find : ∀ name, s.symbols[name]? = Variable.find? vs name
  counts : ∀ kind, kind.isClassLevel = classLevel →
    (s.count kind).toNat = Variable.count kind vs

/-- A new scope has no variable. -/
lemma holds_empty : Holds {} classLevel [] where
  find := by
    intro name
    simp [Variable.find?, Variable.findAfter]
  counts := by
    intro kind _
    cases kind <;> rfl

/-- The counter of a kind is the number of its variables. -/
lemma Holds.count_eq (h : s.Holds classLevel vs) (kind : SymbolKind)
    (hk : kind.isClassLevel = classLevel) :
    s.count kind = (Variable.count kind vs).toUInt16 := by
  rw [← h.counts kind hk]
  exact (UInt16.ofNat_toNat ..).symm

/-- One more variable with a new name is found and counted. -/
lemma Holds.extended (h : s.Holds classLevel vs) {v : Variable}
    (hv : v.kind.isClassLevel = classLevel) (hn : v.name ∉ Variable.names vs) {next : UInt16}
    (hnext : next? (s.count v.kind) = some next) :
    (s.extended v next).Holds classLevel (vs ++ [v]) where
  find := by
    intro name
    have hf := (Variable.find?_eq_none_iff vs v.name).2 hn
    rw [Variable.find?_concat, ← h.find name, ← h.count_eq v.kind hv, Scope.extended,
      Std.TreeMap.getElem?_insert]
    by_cases hx : v.name = name
    · subst hx
      simp [h.find, hf]
    · simp [hx]
  counts := by
    intro kind hk
    rw [count_extended next (hv.trans hk.symm), Variable.count_append, Variable.count_singleton]
    split
    · next e => rw [← next?_eq_some_iff.1 hnext, h.counts v.kind hv, e]
    · rw [h.counts kind hk, Nat.add_zero]

/-- A declaration with a new name and a number left for it works out. -/
lemma Holds.declare_eq_ok (h : s.Holds classLevel vs) {v : Variable}
    (hv : v.kind.isClassLevel = classLevel) (hn : v.name ∉ Variable.names vs)
    (hc : Variable.count v.kind vs < maxWord) :
    ∃ after, s.declare v.name v.type v.kind = (.ok (s.count v.kind), after) ∧
      after.Holds classLevel (vs ++ [v]) := by
  obtain ⟨earlier, hf, -⟩ | ⟨-, hfull, -⟩ | ⟨-, next, hnext, hd⟩ :=
    s.declare_cases v.name v.type v.kind
  · rw [h.find, (Variable.find?_eq_none_iff vs v.name).2 hn] at hf
    cases hf
  · rw [next?_eq_none_iff, h.counts v.kind hv] at hfull
    omega
  · exact ⟨_, hd, h.extended hv hn hnext⟩

/-- Any other declaration is refused, and leaves the scope as it was. -/
lemma Holds.declare_eq_error (h : s.Holds classLevel vs) {v : Variable}
    (hv : v.kind.isClassLevel = classLevel)
    (hd : ¬ (v.name ∉ Variable.names vs ∧ Variable.count v.kind vs < maxWord)) :
    ∃ cause, s.declare v.name v.type v.kind = (.error cause, s) := by
  obtain ⟨earlier, -, hr⟩ | ⟨-, -, hr⟩ | ⟨hf, next, hnext, -⟩ :=
    s.declare_cases v.name v.type v.kind
  · exact ⟨_, hr⟩
  · exact ⟨_, hr⟩
  · rw [h.find, Variable.find?_eq_none_iff] at hf
    have hlt := next.toNat_lt
    rw [next?_eq_some_iff, h.counts v.kind hv] at hnext
    rw [maxWord] at hd
    exact absurd ⟨hf, by omega⟩ hd

end Scope

namespace SymbolTable

/-- The scope of the class, or that of the subroutine. -/
def scope (t : SymbolTable) (classLevel : Bool) : Scope :=
  if classLevel then t.classScope else t.subroutineScope

/-- The table with the scope of the class, or that of the subroutine, replaced. -/
def withScope (t : SymbolTable) (classLevel : Bool) (s : Scope) : SymbolTable :=
  if classLevel then { t with classScope := s } else { t with subroutineScope := s }

variable (t : SymbolTable)

/-- Replacing one scope leaves the other one. -/
lemma scope_withScope (classLevel other : Bool) (s : Scope) :
    (t.withScope classLevel s).scope other = if classLevel = other then s else t.scope other := by
  cases classLevel <;> cases other <;> rfl

/-- Putting a scope back changes nothing. -/
lemma withScope_scope (classLevel : Bool) : t.withScope classLevel (t.scope classLevel) = t := by
  cases classLevel <;> rfl

/-- A table declares in the scope of the kind. -/
lemma declare_eq (name type : String) (kind : SymbolKind) :
    t.declare name type kind =
      (((t.scope kind.isClassLevel).declare name type kind).1,
        t.withScope kind.isClassLevel ((t.scope kind.isClassLevel).declare name type kind).2) := by
  rw [declare, scope]
  cases kind.isClassLevel <;> rfl

end SymbolTable

end Jack
